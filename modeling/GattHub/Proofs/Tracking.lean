import GattHub.Proofs.Reaction
import GattHub.Hub.Basic
import Mathlib.Data.List.Nodup

/-! Tracked peers as managers and the hub hand them on, and which notices go out about them when a
manager is closed. -/

namespace GattHub

variable {H : Handles}

/-- The peer as a live manager tracks it. -/
def Hub.peer? (h : Hub H) (c : CentralId) (p : PeerId) : Option (Peer H) :=
  (h.centrals.get? c).bind fun central => central.peers.get? p

/-- Managers and peers bear the identities under which they are found. -/
structure Hub.Labelled (h : Hub H) : Prop where
  central_id : ∀ {c central}, h.centrals.get? c = some central → central.id = c
  peer_central : ∀ {c p q}, h.peer? c p = some q → q.central = c
  peer_id : ∀ {c p q}, h.peer? c p = some q → q.id = p

/-- No notice is about this peer, advertisements apart. -/
def Silent (c : CentralId) (p : PeerId) (ns : List Notice) : Prop := ∀ n, .peer c p n ∉ ns

theorem Silent.nil (c : CentralId) (p : PeerId) : Silent c p [] := fun _ => List.not_mem_nil

theorem Silent.append {c : CentralId} {p : PeerId} {ns ns' : List Notice} (h : Silent c p ns)
    (h' : Silent c p ns') : Silent c p (ns ++ ns') := by
  intro n hn
  rcases List.mem_append.mp hn with hn | hn
  · exact h n hn
  · exact h' n hn

theorem Silent.countP_eq_zero {c : CentralId} {p : PeerId} {ns : List Notice} (h : Silent c p ns)
    {f : Notice → Bool} (hf : ∀ n, f n = true → ∃ k, n = .peer c p k) : ns.countP f = 0 := by
  rw [List.countP_eq_zero]
  intro n hn hfn
  obtain ⟨k, rfl⟩ := hf n hfn
  exact h k hn

/-- The notices with which the link of a peer ends when its manager goes away. -/
def Peer.closingNotices (q : Peer H) : List Notice :=
  if q.state = .disconnected then [] else q.cancelNotices ++ [q.notice (.disconnected .cancelled)]

namespace Peer

theorem Reaction.notices_of_mem {p q : Peer H} {report : PeerReport H} {ns : List Notice}
    (h : p.Reaction report q ns) : ∀ n ∈ ns, ∃ m, n = p.notice m := by
  intro n hn
  cases h with
  | ignored => cases hn
  | established | passed | completed | forwarded => exact ⟨_, List.mem_singleton.mp hn⟩
  | failed | lost =>
    rcases List.mem_append.mp hn with hn | hn
    · obtain ⟨op, -, rfl⟩ := List.mem_map.mp hn
      exact ⟨_, rfl⟩
    · exact ⟨_, List.mem_singleton.mp hn⟩

theorem closingNotices_of_mem {q : Peer H} : ∀ n ∈ q.closingNotices, ∃ m, n = q.notice m := by
  intro n hn
  simp only [closingNotices] at hn
  split at hn
  · cases hn
  · rcases List.mem_append.mp hn with hn | hn
    · obtain ⟨op, -, rfl⟩ := List.mem_map.mp hn
      exact ⟨_, rfl⟩
    · exact ⟨_, List.mem_singleton.mp hn⟩

theorem notices_teardown (answers : Answers H) (q : Peer H) :
    Effect.notices (q.teardown answers).effects = q.closingNotices := by
  have hrefusal (r : Option Refusal) :
      Effect.notices (r.toList.map fun r => (.log (.cancelRefused q.id r) : Effect H)) = [] := by
    cases r <;> rfl
  simp only [teardown, closingNotices, linkLost]
  cases hs : q.state <;> simp [notices_cancellations, hrefusal]

theorem notices_perform (answers : Answers H) (q : Peer H) (action : PeerAction) :
    Effect.notices (q.perform answers action).effects = [] := by
  simp only [perform]
  split
  · rfl
  · split <;> simp

theorem perform_cases (answers : Answers H) (q : Peer H) (action : PeerAction) :
    ((q.perform answers action).state = q ∧ (q.perform answers action).result.isOk = false) ∨
      (q.perform answers action).result = .ok () ∧
        q.Accepts action (q.perform answers action).state := by
  simp only [perform]
  cases hp : q.prepare action with
  | error reason => exact .inl ⟨rfl, rfl⟩
  | ok prepared =>
    cases hr : answers.refusal q.central (.peer q.native prepared.call) with
    | some refusal =>
      dsimp only
      rw [hr]
      exact .inl ⟨rfl, rfl⟩
    | none =>
      dsimp only
      rw [hr]
      exact .inr ⟨rfl, accepts_of_prepare hp⟩

theorem attMtu_spec (answers : Answers H) (q : Peer H) :
    (q.attMtu answers).state = q ∧ Effect.notices (q.attMtu answers).effects = [] := by
  simp only [attMtu]
  split
  · exact ⟨rfl, rfl⟩
  · split <;> exact ⟨rfl, rfl⟩

end Peer

namespace Central

theorem track_cases (answers : Answers H) (m : Central H) (p : PeerId) :
    (∃ reason, (m.track answers p).result = .error reason ∧ m.peers.get? p = none ∧
        (m.track answers p).state = m) ∨
      ∃ q, (m.track answers p).result = .ok q ∧
        (m.peers.get? p = some q ∨ m.peers.get? p = none ∧ ∃ native, q = .new m.id p native) ∧
        ∀ i, i ≠ p → (m.track answers p).state.peers.get? i = m.peers.get? i := by
  simp only [track]
  cases hq : m.peers.get? p with
  | some q => exact .inr ⟨q, rfl, .inl rfl, fun _ _ => rfl⟩
  | none =>
    cases hl : answers.lookup m.id p with
    | none => exact .inl ⟨_, rfl, rfl, rfl⟩
    | some native =>
      refine .inr ⟨_, rfl, .inr ⟨rfl, native, rfl⟩, fun i hi => ?_⟩
      dsimp only
      rw [Table.get?_insert, if_neg hi]

theorem notices_track (answers : Answers H) (m : Central H) (p : PeerId) :
    Effect.notices (m.track answers p).effects = [] := by
  simp only [track]
  split
  · rfl
  · split <;> rfl

theorem track_id (answers : Answers H) (m : Central H) (p : PeerId) :
    (m.track answers p).state.id = m.id := by
  simp only [track]
  split
  · rfl
  · split <;> rfl

theorem withPeer_cases {α : Type} (answers : Answers H) (m : Central H) (p : PeerId)
    (f : Peer H → Response H (Peer H) α) :
    ((m.withPeer answers p f).state = m ∧ (m.withPeer answers p f).result.isOk = false ∧
        Effect.notices (m.withPeer answers p f).effects = [] ∧ m.peers.get? p = none) ∨
      ∃ q, (m.peers.get? p = some q ∨ m.peers.get? p = none ∧ ∃ native, q = .new m.id p native) ∧
        (m.withPeer answers p f).state.id = m.id ∧
        (∀ i, (m.withPeer answers p f).state.peers.get? i =
          if i = p then some (f q).state else m.peers.get? i) ∧
        (m.withPeer answers p f).result = (f q).result ∧
        Effect.notices (m.withPeer answers p f).effects = Effect.notices (f q).effects := by
  rcases m.track_cases answers p with ⟨reason, hr, hp, hs⟩ | ⟨q, hr, hq, hi⟩
  · left
    simp only [withPeer, hr]
    exact ⟨hs, rfl, m.notices_track answers p, hp⟩
  · right
    refine ⟨q, hq, ?_⟩
    simp only [withPeer, hr]
    refine ⟨m.track_id answers p, fun i => ?_, trivial, ?_⟩
    · rw [Table.get?_insert]
      split
      next => rfl
      next h => exact hi i h
    · simp [notices_track]

def Labelled (m : Central H) : Prop :=
  ∀ p q, m.peers.get? p = some q → q.central = m.id ∧ q.id = p

theorem Labelled.silent_flatMap {m : Central H} (hm : m.Labelled) (answers : Answers H)
    {c : CentralId} {p : PeerId} {order : List PeerId} (hp : m.id = c → p ∉ order) :
    Silent c p (Effect.notices ((order.filterMap m.peers.get?).flatMap fun q =>
      (q.teardown answers).effects)) := by
  intro n hn
  simp only [Effect.notices, List.filterMap_flatMap, List.mem_flatMap, List.mem_filterMap] at hn
  obtain ⟨q, ⟨i, hi, hq⟩, hn⟩ := hn
  have hclosing : Notice.peer c p n ∈ q.closingNotices := by
    rw [← Peer.notices_teardown answers]
    exact List.mem_filterMap.mpr hn
  obtain ⟨k, hk⟩ := Peer.closingNotices_of_mem _ hclosing
  obtain ⟨hc, hid⟩ := hm _ _ hq
  simp only [Peer.notice, Notice.peer.injEq] at hk
  rw [hc, hid] at hk
  exact hp hk.1.symm (hk.2.1 ▸ hi)

theorem notices_teardown (answers : Answers H) (order : List PeerId) (m : Central H) :
    Effect.notices (m.teardown answers order) =
      Effect.notices ((order.filterMap m.peers.get?).flatMap fun q =>
        (q.teardown answers).effects) := by
  have hstop : Effect.notices (m.stopScan answers).effects = [] := by
    simp only [stopScan]
    split <;> rfl
  simp only [teardown, Effect.notices_append]
  split <;> simp [hstop, call]

/-- The end of one peer's link stands in one piece among the notices of its manager's end. -/
theorem Labelled.notices_teardown_split {m : Central H} (hm : m.Labelled) (answers : Answers H)
    {order : List PeerId} (hnodup : order.Nodup) {p : PeerId} (hp : p ∈ order) {q : Peer H}
    (hq : m.peers.get? p = some q) :
    ∃ pre post, Effect.notices (m.teardown answers order) = pre ++ q.closingNotices ++ post ∧
      Silent m.id p pre ∧ Silent m.id p post := by
  obtain ⟨front, back, rfl⟩ := List.append_of_mem hp
  have hnot : p ∉ front ∧ p ∉ back := by
    rw [List.nodup_middle, List.nodup_cons, List.mem_append, not_or] at hnodup
    exact hnodup.1
  refine ⟨_, _, ?_, hm.silent_flatMap answers fun _ => hnot.1,
    hm.silent_flatMap answers fun _ => hnot.2⟩
  rw [notices_teardown]
  simp [hq, Peer.notices_teardown]

end Central

namespace Hub

theorem peer?_eq_some {h : Hub H} {c : CentralId} {p : PeerId} {q : Peer H} :
    h.peer? c p = some q ↔ ∃ m, h.centrals.get? c = some m ∧ m.peers.get? p = some q := by
  simp [peer?, Option.bind_eq_some_iff]

theorem peer?_of_insert {h h' : Hub H} {c : CentralId} {m : Central H}
    (hc : h'.centrals = h.centrals.insert c m) (c' : CentralId) (p : PeerId) :
    h'.peer? c' p = if c' = c then m.peers.get? p else h.peer? c' p := by
  simp only [peer?, hc, Table.get?_insert]
  split <;> rfl

theorem Labelled.central {h : Hub H} (hl : h.Labelled) {c : CentralId} {m : Central H}
    (hm : h.centrals.get? c = some m) : m.Labelled := by
  intro p q hq
  have hpeer : h.peer? c p = some q := peer?_eq_some.mpr ⟨m, hm, hq⟩
  exact ⟨(hl.peer_central hpeer).trans (hl.central_id hm).symm, hl.peer_id hpeer⟩

theorem central_of_get? {h : Hub H} {c : CentralId} {m : Central H}
    (hm : h.centrals.get? c = some m) : h.central c = .ok m := by
  simp [central, hm]

theorem destroyIn_effects (order : Central H → List PeerId) (answers : Answers H) {h : Hub H}
    {c : CentralId} {m : Central H} (hm : h.centrals.get? c = some m) :
    (h.destroyIn order answers c).effects =
      m.teardown answers (order m) ++ [.log (.destroyed c)] := by
  simp [destroyIn, central_of_get? hm]

theorem destroyIn_congr (order : Central H → List PeerId) (answers : Answers H) {h h' : Hub H}
    {c : CentralId} (hc : h'.centrals.get? c = h.centrals.get? c) :
    (h'.destroyIn order answers c).effects = (h.destroyIn order answers c).effects := by
  simp only [destroyIn, central, hc]
  cases h.centrals.get? c <;> rfl

theorem get?_destroyIn (order : Central H → List PeerId) (answers : Answers H) (h : Hub H)
    {c c' : CentralId} (hne : c' ≠ c) :
    (h.destroyIn order answers c).state.centrals.get? c' = h.centrals.get? c' := by
  simp only [destroyIn, central]
  cases h.centrals.get? c with
  | none => rfl
  | some m => simp [Table.get?_erase, hne]

/-- Managers are closed one after the other, each as it stood before. -/
theorem shutdownIn_effects (order : Central H → List PeerId) (answers : Answers H) (h : Hub H)
    (hnodup : h.centralIds.Nodup) :
    (h.shutdownIn order answers).effects =
      h.centralIds.flatMap fun c => (h.destroyIn order answers c).effects := by
  have hgen : ∀ (l : List CentralId) (s : Step H (Hub H)), l.Nodup →
      (∀ c ∈ l, s.state.centrals.get? c = h.centrals.get? c) →
      (l.foldl (fun s c => ⟨(s.state.destroyIn order answers c).state,
        s.effects ++ (s.state.destroyIn order answers c).effects⟩) s).effects =
        s.effects ++ l.flatMap fun c => (h.destroyIn order answers c).effects := by
    intro l
    induction l with
    | nil => simp
    | cons c l ih =>
      intro s hl hs
      obtain ⟨hc, hl⟩ := List.nodup_cons.mp hl
      rw [List.foldl_cons, ih _ hl]
      · simp [destroyIn_congr order answers (hs c List.mem_cons_self)]
      · intro c' hc'
        have hne : c' ≠ c := fun e => hc (e ▸ hc')
        rw [get?_destroyIn order answers _ hne, hs c' (List.mem_cons_of_mem _ hc')]
  simpa [shutdownIn] using hgen h.centralIds ⟨h, []⟩ hnodup fun _ _ => rfl

theorem mem_centralIds {h : Hub H} {c : CentralId} :
    c ∈ h.centralIds ↔ (h.centrals.get? c).isSome := by
  rw [centralIds, List.mem_mergeSort, Table.mem_keys_iff]

theorem nodup_centralIds (h : Hub H) : h.centralIds.Nodup :=
  (List.mergeSort_perm _ _).nodup_iff.mpr h.centrals.nodup_keys

theorem withCentral_cases {α : Type} (h : Hub H) (c : CentralId)
    (f : Central H → Response H (Central H) α) :
    (h.centrals.get? c = none ∧ (h.withCentral c f).state = h ∧
        (h.withCentral c f).result.isOk = false ∧ (h.withCentral c f).effects = []) ∨
      ∃ m, h.centrals.get? c = some m ∧
        (h.withCentral c f).state = { h with centrals := h.centrals.insert c (f m).state } ∧
        (h.withCentral c f).result = (f m).result ∧
        (h.withCentral c f).effects = (f m).effects := by
  simp only [withCentral, central]
  cases hm : h.centrals.get? c with
  | none => exact .inl ⟨rfl, rfl, rfl, rfl⟩
  | some m => exact .inr ⟨m, rfl, rfl, rfl, rfl⟩

theorem noting_spec {α : Type} (c : CentralId) (p : PeerId) (r : Response H (Hub H) α) :
    (noting c p r).state = r.state ∧ (noting c p r).result = r.result ∧
      Effect.notices (noting c p r).effects = Effect.notices r.effects := by
  simp only [noting]
  split <;> simp

theorem isOk_reply {α : Type} (r : Response H (Hub H) α) (f : α → Reply) :
    (reply r f).result.isOk = r.result.isOk := by
  simp only [reply]
  cases r.result <;> rfl

theorem peer?_insert_self {h : Hub H} {c : CentralId} {m m' : Central H}
    (hm : h.centrals.get? c = some m) (hpeers : ∀ i, m'.peers.get? i = m.peers.get? i)
    (c' : CentralId) (p : PeerId) :
    Hub.peer? { h with centrals := h.centrals.insert c m' } c' p = h.peer? c' p := by
  rw [peer?_of_insert rfl]
  split
  next hc => rw [hpeers, hc, peer?, hm]; rfl
  next => rfl

/-- A request to a peer concerns just this peer, as it is tracked or newly known from the host. -/
theorem withPeer_cases {α : Type} {h : Hub H} (hl : h.Labelled) (answers : Answers H)
    (c : CentralId) (p : PeerId) (f : Peer H → Response H (Peer H) α) :
    let r := h.withCentral c (·.withPeer answers p f)
    (r.result.isOk = false ∧ Effect.notices r.effects = [] ∧
        ∀ c' p', r.state.peer? c' p' = h.peer? c' p') ∨
      ∃ q, (h.peer? c p = some q ∨ h.peer? c p = none ∧ ∃ native, q = .new c p native) ∧
        r.result = (f q).result ∧ Effect.notices r.effects = Effect.notices (f q).effects ∧
        ∀ c' p', r.state.peer? c' p' =
          if c' = c ∧ p' = p then some (f q).state else h.peer? c' p' := by
  intro r
  rcases h.withCentral_cases c (·.withPeer answers p f) with
    ⟨-, hs, hr, he⟩ | ⟨m, hm, hs, hr, he⟩
  · exact .inl ⟨hr, by rw [he]; rfl, fun _ _ => by rw [hs]⟩
  have hpeer (i : PeerId) : h.peer? c i = m.peers.get? i := by simp [peer?, hm]
  rw [hs, hr, he]
  rcases m.withPeer_cases answers p f with ⟨hs', hr', he', -⟩ | ⟨q, hq, -, hi, hr', he'⟩
  · left
    rw [hs']
    exact ⟨hr', he', peer?_insert_self hm fun _ => rfl⟩
  · right
    rw [hpeer, ← hl.central_id hm]
    refine ⟨q, hq, hr', he', fun c' p' => ?_⟩
    rw [hl.central_id hm, peer?_of_insert rfl]
    by_cases hc : c' = c
    · simp [hc, hi, hpeer]
    · simp [hc]

theorem mem_trackingOrder {m : Central H} {p : PeerId} :
    p ∈ trackingOrder m ↔ (m.peers.get? p).isSome := Table.mem_keys_iff

theorem peer?_of_get? {h : Hub H} {c : CentralId} {m : Central H}
    (hm : h.centrals.get? c = some m) (p : PeerId) : h.peer? c p = m.peers.get? p := by
  simp [peer?, hm]

theorem silent_destroy {h : Hub H} (hl : h.Labelled) (answers : Answers H) {c c' : CentralId}
    {p : PeerId} (hp : c' = c → h.peer? c p = none) :
    Silent c p (Effect.notices (h.destroy answers c').effects) := by
  cases hm : h.centrals.get? c' with
  | none =>
    simp only [destroy, destroyIn, central, hm]
    exact .nil c p
  | some m =>
    rw [destroy, destroyIn_effects _ _ hm, Effect.notices_append, Central.notices_teardown]
    refine .append ((hl.central hm).silent_flatMap answers fun hc => ?_) (.nil c p)
    rw [mem_trackingOrder]
    rw [hl.central_id hm] at hc
    rw [← peer?_of_get? hm, hc, hp hc]
    simp

theorem notices_destroy_split {h : Hub H} (hl : h.Labelled) (answers : Answers H) {c : CentralId}
    {p : PeerId} {q : Peer H} (hq : h.peer? c p = some q) :
    ∃ pre post, Effect.notices (h.destroy answers c).effects = pre ++ q.closingNotices ++ post ∧
      Silent c p pre ∧ Silent c p post := by
  obtain ⟨m, hm, hq⟩ := peer?_eq_some.mp hq
  have hmem : p ∈ trackingOrder m := by rw [mem_trackingOrder, hq]; rfl
  have hsplit := (hl.central hm).notices_teardown_split answers
    (show (trackingOrder m).Nodup from m.peers.nodup_keys) hmem hq
  rw [hl.central_id hm] at hsplit
  obtain ⟨pre, post, hns, hpre, hpost⟩ := hsplit
  refine ⟨pre, post, ?_, hpre, hpost⟩
  rw [destroy, destroyIn_effects _ _ hm, Effect.notices_append]
  simpa using hns

theorem silent_flatMap_destroy {h : Hub H} (hl : h.Labelled) (answers : Answers H)
    {c : CentralId} {p : PeerId} (l : List CentralId) (hp : c ∈ l → h.peer? c p = none) :
    Silent c p (Effect.notices (l.flatMap fun c' => (h.destroy answers c').effects)) := by
  intro n hn
  simp only [Effect.notices, List.filterMap_flatMap, List.mem_flatMap] at hn
  obtain ⟨c', hc', hn⟩ := hn
  exact silent_destroy hl answers (fun hc => hp (hc ▸ hc')) n hn

theorem shutdown_effects (answers : Answers H) (h : Hub H) :
    (h.shutdown answers).effects = h.centralIds.flatMap fun c => (h.destroy answers c).effects :=
  shutdownIn_effects _ _ h h.nodup_centralIds

theorem notices_shutdown_split {h : Hub H} (hl : h.Labelled) (answers : Answers H) {c : CentralId}
    {p : PeerId} {q : Peer H} (hq : h.peer? c p = some q) :
    ∃ pre post, Effect.notices (h.shutdown answers).effects = pre ++ q.closingNotices ++ post ∧
      Silent c p pre ∧ Silent c p post := by
  obtain ⟨m, hm, -⟩ := peer?_eq_some.mp hq
  obtain ⟨front, back, hids⟩ := List.append_of_mem
    (mem_centralIds.mpr (by rw [hm]; rfl : (h.centrals.get? c).isSome))
  have hnot : c ∉ front ∧ c ∉ back := by
    have hnodup := h.nodup_centralIds
    rw [hids, List.nodup_middle, List.nodup_cons, List.mem_append, not_or] at hnodup
    exact hnodup.1
  obtain ⟨pre, post, hns, hpre, hpost⟩ := notices_destroy_split hl answers hq
  have hfront := silent_flatMap_destroy hl answers (p := p) front fun hc => absurd hc hnot.1
  have hback := silent_flatMap_destroy hl answers (p := p) back fun hc => absurd hc hnot.2
  refine ⟨_, _, ?_, hfront.append hpre, hpost.append hback⟩
  rw [shutdown_effects, hids]
  simp [hns]

end Hub

end GattHub
