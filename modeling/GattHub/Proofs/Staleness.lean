import GattHub.Proofs.Owing

/-! When a discovery is told to be stale although its parent is live. -/

namespace GattHub

open Gatt

variable {H : Handles}

namespace Peer

/-- With a prompt host a live parent is passed over for no other reason than that a retired
characteristic is awaited behind it. -/
theorem Matched.exists_retired_behind {q q' : Peer H} {report : PeerReport H}
    {owed : List (Parent H.Service H.Characteristic)} {ds : List Discovery}
    {h : Parent H.Service H.Characteristic} {pre post : List (Parent AttrId AttrId)}
    {x : Parent AttrId AttrId} {k : PeerNotice} (hm : q.Matched owed ds)
    (hs : q.Settles q' report h pre x post k) (hmem : h ∈ owed)
    (hne : q.tree.handle? x ≠ some h) (hlive : q.tree.Live x.tier x.id) :
    x.tier = .characteristics ∧
      ∃ y ∈ post, y.tier = .characteristics ∧ ¬ q.tree.Live .characteristics y.id := by
  obtain ⟨hno, holdest⟩ := hs.oldest hne
  obtain ⟨y, hy, hyh, hdead⟩ := hm.owes.exists_retired hmem hno
  have hxlive := Tree.isSome_handle?.mpr hlive
  have hydead : ¬ (q.tree.handle? y).isSome := by simp [hdead]
  rw [hs.awaited] at hy
  have hpost : y ∈ post := by
    rcases List.mem_append.mp hy with hy | hy
    · exact absurd hyh (holdest y hy)
    · refine (List.mem_cons.mp hy).resolve_left ?_
      rintro rfl
      exact hydead hxlive
  have hordered := hm.owes.ordered
  rw [hs.awaited] at hordered
  have hxy := List.rel_of_pairwise_cons (List.pairwise_append.mp hordered).2.1 hpost
  have htier : x.tier = .characteristics := by
    cases x with
    | service s => exact absurd (hxy rfl (hyh.trans hs.tier_eq.symm) hxlive) hydead
    | characteristic c => rfl
  have hytier : y.tier = .characteristics := by rw [hyh, ← hs.tier_eq, htier]
  exact ⟨htier, y, hpost, hytier, fun hl => hydead (Tree.isSome_handle?.mpr (hytier ▸ hl))⟩

end Peer

namespace Run

/-- A completion settles a pending discovery of its tier. The outcome is that of the host if the
attribute behind the handle is awaited, and then a success rebuilds what is beneath it. Otherwise the
oldest discovery is told to be stale. With a prompt host this is wrong for no service, and for a
characteristic only when the discovery of a retired one is pending behind it. -/
theorem stale_verdict (settings : Settings) (ms : List (Move H))
    (hbound : (of settings ms).found.length < UInt64.size) {ts us : List (Moment H)} {t : Moment H}
    (hpast : (of settings ms).past = ts ++ t :: us) {c : CentralId} {p : PeerId}
    {report : PeerReport H} (hm : t.move = .report c (.peer p report)) {q : Peer H}
    (hq : t.before c p = some q) {h : Parent H.Service H.Characteristic}
    (hh : report.parent? = some h) (hpending : ∃ x ∈ q.awaited, x.tier = h.tier) :
    ∃ q' pre x post k, t.later c p = some q' ∧ t.notices = [.peer c p k] ∧
      q.Settles q' report h pre x post k ∧
      (∀ y ∈ q.awaited, q.tree.handle? y = some h → x = y) ∧
      (q.tree.handle? x = some h → report.status = .ok →
        ∃ n d m, d.scope = x.scope ∧ q.tree.Rebuilds n d q'.tree m) ∧
      (q.tree.handle? x ≠ some h → q'.tree = q.tree) ∧
      (Prompt c p (of settings ms).past → q.tree.handle? x ≠ some h →
        q.tree.Live x.tier x.id → x.tier = .characteristics ∧
          ∃ y ∈ post, y.tier = .characteristics ∧ ¬ q.tree.Live .characteristics y.id) := by
  obtain ⟨ms', hpast', hhub⟩ := exists_of_past_eq settings ms hpast
  have hfound : (of settings ms).found.length =
      (of settings ms').found.length + (t.found.length + (us.flatMap Moment.found).length) := by
    simp [found, hpast, hpast']
  obtain ⟨n, hn, hlearned⟩ := learned settings ms' (by omega) t.hub hhub
  have hlabelled := (labelled settings ms').2 t.hub hhub
  have hf := hlearned.faithful hq
  have hlearns := Peer.learns_receive hf t.hub.settings report (by
    have : t.found = report.found := by simp [Moment.found, hm]
    rw [← this]
    omega)
  obtain ⟨hlater, hnotices⟩ := Moment.reported_spec hm hq
  rcases Peer.settles_receive hf.sound t.hub.settings t.hub.ids hh with
    ⟨hnone, -⟩ | ⟨pre, x, post, k, hns, hsettles⟩
  · obtain ⟨x, hx, hxh⟩ := hpending
    exact absurd hxh (hnone x hx)
  rw [← hlearned.ids_eq, hns] at hlearns
  obtain ⟨hsame, hrebuilt⟩ := hlearns.rebuilds
  have hdiscovery := hsettles.discovery
  refine ⟨_, pre, x, post, k, hlater, ?_, hsettles, fun y hy hyh => ?_, fun hnamed hok => ?_,
    fun hne => ?_, fun hprompt hne hlive => ?_⟩
  · rw [hnotices, hns, Peer.notice, hlabelled.peer_central hq, hlabelled.peer_id hq]
  · by_cases hnamed : q.tree.handle? x = some h
    · exact hf.sound.parent_inj hnamed hyh
    · exact absurd hyh ((hsettles.oldest hnamed).1 y hy)
  · rw [if_pos ⟨hnamed, hok⟩] at hdiscovery
    obtain ⟨d, hd, hscope⟩ := Option.map_eq_some_iff.mp hdiscovery
    obtain ⟨m, hr⟩ := hrebuilt d hd
    exact ⟨n, d, m, hscope, hr⟩
  · rw [if_neg fun hnamed => hne hnamed.1, Option.map_eq_none_iff] at hdiscovery
    exact hsame hdiscovery
  · rw [hpast] at hprompt
    have hmatched := (matched settings ms' c p (by omega) (hpast' ▸ hprompt.of_append) t.hub
      hhub).2 q hq
    rw [hpast'] at hmatched
    have hmem : h ∈ owed c p ts :=
      hprompt.due h (by rw [Moment.answered?_of_report hm, hh]; rfl) q hq hpending
    exact hmatched.exists_retired_behind hsettles hmem hne hlive

/-- Two services with a characteristic each. The descriptors of the second are asked for, then those
of the first, which a rediscovery of its service retires. -/
def crossedMoves : List (Move .numbers) :=
  [.request .agreeing .allocate, .request .agreeing (.act ⟨1⟩ default .connect),
    .report ⟨1⟩ (.peer default (.connected .ok)),
    .request .agreeing (.act ⟨1⟩ default (.discoverServices [])),
    .report ⟨1⟩ (.peer default (.servicesDiscovered .ok [⟨1, default⟩, ⟨2, default⟩])),
    .request .agreeing (.act ⟨1⟩ default (.discoverCharacteristics ⟨1⟩ [])),
    .report ⟨1⟩ (.peer default (.characteristicsDiscovered .ok 1 [⟨10, default, 2⟩])),
    .request .agreeing (.act ⟨1⟩ default (.discoverCharacteristics ⟨2⟩ [])),
    .report ⟨1⟩ (.peer default (.characteristicsDiscovered .ok 2 [⟨11, default, 2⟩])),
    .request .agreeing (.act ⟨1⟩ default (.discoverDescriptors ⟨4⟩)),
    .request .agreeing (.act ⟨1⟩ default (.discoverDescriptors ⟨3⟩)),
    .request .agreeing (.act ⟨1⟩ default (.discoverCharacteristics ⟨1⟩ [])),
    .report ⟨1⟩ (.peer default (.characteristicsDiscovered .ok 1 []))]

/-- The host answers for the characteristic that was retired. -/
def crossedMoment : Moment .numbers where
  hub := (of .default crossedMoves).hub.getD (.new .default)
  move := .report ⟨1⟩ (.peer default (.descriptorsDiscovered .ok 10 []))

def crossedPeer : Peer .numbers := (crossedMoment.before ⟨1⟩ default).getD (.new ⟨1⟩ default 0)

/-- The host is prompt, and yet the discovery of the live characteristic is told to be stale. -/
theorem stale_verdict_crossed :
    (of .default (crossedMoves ++ [crossedMoment.move])).found.length < UInt64.size ∧
      (of .default (crossedMoves ++ [crossedMoment.move])).past =
        (of .default crossedMoves).past ++ [crossedMoment] ∧
      crossedMoment.before ⟨1⟩ default = some crossedPeer ∧
      Prompt ⟨1⟩ default (of .default (crossedMoves ++ [crossedMoment.move])).past ∧
      crossedPeer.awaited = [.characteristic ⟨4⟩, .characteristic ⟨3⟩] ∧
      crossedPeer.tree.Live .characteristics ⟨4⟩ ∧
      ¬ crossedPeer.tree.Live .characteristics ⟨3⟩ ∧
      crossedMoment.notices = [.peer ⟨1⟩ default (.descriptorsDiscovered .stale [])] := by
  have hprompt : Prompt ⟨1⟩ default
      (of .default (crossedMoves ++ [crossedMoment.move])).past := by decide
  have hlive : crossedPeer.tree.Live .characteristics ⟨4⟩ :=
    show (crossedPeer.tree.characteristics.get? ⟨4⟩).isSome by decide
  have hawaited : crossedPeer.awaited = [.characteristic ⟨4⟩, .characteristic ⟨3⟩] := by decide
  have hunnamed : ∀ x ∈ crossedPeer.awaited,
      crossedPeer.tree.handle? x ≠ some (.characteristic 10) := by decide
  obtain ⟨q', pre, x, post, k, -, -, hsettles, -, -, -, hverdict⟩ := stale_verdict .default
    (crossedMoves ++ [crossedMoment.move]) (by decide) (t := crossedMoment) rfl (c := ⟨1⟩)
    (p := default) rfl (q := crossedPeer) rfl (h := .characteristic 10) rfl (by decide)
  have hsplit := hsettles.awaited
  have hne := hunnamed x (by simp [hsplit])
  have holdest := (hsettles.oldest hne).2
  rw [hawaited] at hsplit
  cases pre with
  | cons y pre =>
    have hy := holdest y List.mem_cons_self
    rw [← (List.cons.inj hsplit).1] at hy
    exact absurd rfl hy
  | nil =>
    cases hsplit
    obtain ⟨-, y, hy, -, hdead⟩ := hverdict hprompt hne hlive
    rw [List.mem_singleton.mp hy] at hdead
    exact ⟨by decide, rfl, rfl, hprompt, hawaited, hlive, hdead, by decide⟩

end Run

end GattHub
