import GattHub.Proofs.Naming
import GattHub.Proofs.PeerCalls
import GattHub.Proofs.PeerUpdate

/-! Where the native objects that a hub works with come from. That of a peer is what the host looked
up when the peer came to be tracked; that of an attribute is what the host listed when its identity
was given out. Both are kept from then on, however many identities there have been. -/

namespace GattHub

open Gatt

variable {H : Handles}

/-- The attributes that a report lists. -/
def PeerReport.listed : PeerReport H → List (Native H.Service H.Characteristic H.Descriptor)
  | .servicesDiscovered _ found => found.map (.service ·.handle)
  | .characteristicsDiscovered _ _ found => found.map (.characteristic ·.handle)
  | .descriptorsDiscovered _ _ found => found.map (.descriptor ·.handle)
  | _ => []

namespace Gatt.HandleTable

variable {κ τ : Type}

theorem handle?_of_modify {t : HandleTable κ τ} {id x : AttrId} {f : Entry κ τ → Entry κ τ} {k : κ}
    (hk : (t.modify id f).handle? x = some k) (hf : ∀ e, (f e).handle = e.handle) :
    t.handle? x = some k := by
  have hget : (t.modify id f).get? x = if x = id then (t.get? x).map f else t.get? x :=
    t.entries.get?_modify id f x
  rw [handle?, hget] at hk
  split at hk
  · obtain ⟨e, he, rfl⟩ := Option.map_eq_some_iff.mp hk
    obtain ⟨e', he', rfl⟩ := Option.map_eq_some_iff.mp he
    rw [hf]
    exact handle?_of_get? he'
  · exact hk

variable [DecidableEq κ]

theorem handle?_register (t : HandleTable κ τ) (ids : IdSource) (h : κ) (v : τ) {x : AttrId} {k : κ}
    (hk : (t.register ids h v).2.1.handle? x = some k) : t.handle? x = some k ∨ k = h := by
  cases hid : t.idOf? h with
  | some id =>
    rw [register_of_some hid, handle?_mapValue] at hk
    exact .inl hk
  | none =>
    rw [register_of_none hid, handle?_enter] at hk
    split at hk
    · exact .inr (Option.some.inj hk).symm
    · exact .inl hk

theorem handle?_registerAll (es : List (Entry κ τ)) (t : HandleTable κ τ) (ids : IdSource)
    {x : AttrId} {k : κ} (hk : (t.registerAll ids es).2.1.handle? x = some k) :
    t.handle? x = some k ∨ k ∈ es.map Entry.handle := by
  induction es generalizing t ids with
  | nil => exact .inl hk
  | cons e es ih =>
    rcases ih _ _ hk with hfirst | hrest
    · rcases t.handle?_register ids e.handle e.value hfirst with hold | rfl
      · exact .inl hold
      · exact .inr List.mem_cons_self
    · exact .inr (List.mem_cons_of_mem _ hrest)

end Gatt.HandleTable

namespace Gatt.Tree

variable {S C D : Type} {t t' t'' : Tree S C D} {x : AttrId} {a : Native S C D}

/-- What an identity stands for it stood for before, or it is one of the listed attributes. -/
def Stems (t : Tree S C D) (listed : List (Native S C D)) (t' : Tree S C D) : Prop :=
  ∀ x a, t'.Names x a → t.Names x a ∨ a ∈ listed

variable {listed : List (Native S C D)}

theorem Stems.refl (t : Tree S C D) : t.Stems listed t := fun _ _ => .inl

theorem Stems.trans (h : t.Stems listed t') (h' : t'.Stems listed t'') : t.Stems listed t'' := by
  intro x a hx
  rcases h' x a hx with hx | ha
  · exact h x a hx
  · exact .inr ha

theorem stems_foldl {f : Tree S C D → AttrId → Tree S C D}
    (hf : ∀ (t : Tree S C D) x, t.Stems listed (f t x)) (xs : List AttrId) (t : Tree S C D) :
    t.Stems listed (xs.foldl f t) := by
  induction xs generalizing t with
  | nil => exact .refl t
  | cons x xs ih => exact (hf t x).trans (ih _)

variable [DecidableEq D]

theorem stems_dropDescriptors (t : Tree S C D) (ids : List AttrId) :
    t.Stems listed (t.dropDescriptors ids) := by
  intro x a hx
  cases a with
  | service k | characteristic k => exact .inl hx
  | descriptor k => exact .inl ((t.descriptors.without_foldl_retire ids).handle? hx).2

theorem stems_rebuildDescriptors {ids ids' : IdSource} {c : AttrId} {found : List (Found D)}
    (h : t.rebuildDescriptors ids c found = .ok (t', ids')) :
    t.Stems (found.map (.descriptor ·.handle)) t' := by
  simp only [rebuildDescriptors, Except.map] at h
  split at h
  · cases h
  next e he =>
    cases h
    refine (stems_dropDescriptors t e.value.descriptors).trans fun x a hx => ?_
    cases a with
    | service k => exact .inl hx
    | characteristic k => exact .inl (HandleTable.handle?_of_modify hx fun _ => rfl)
    | descriptor k =>
      exact (HandleTable.handle?_registerAll _ _ _ hx).imp_right fun hk => by simpa using hk

variable [DecidableEq C]

theorem stems_dropCharacteristic (t : Tree S C D) (id : AttrId) :
    t.Stems listed (t.dropCharacteristic id) := by
  have hretire : t.Stems listed { t with characteristics := (t.characteristics.retire id).2 } := by
    intro x a hx
    cases a with
    | service k | descriptor k => exact .inl hx
    | characteristic k => exact .inl ((t.characteristics.without_retire id).handle? hx).2
  simp only [dropCharacteristic]
  split
  · exact .refl t
  next e cs hcs =>
    rw [hcs] at hretire
    exact hretire.trans (stems_dropDescriptors _ _)

theorem stems_rebuildCharacteristics {ids ids' : IdSource} {s : AttrId}
    {found : List (FoundCharacteristic C)}
    (h : t.rebuildCharacteristics ids s found = .ok (t', ids')) :
    t.Stems (found.map (.characteristic ·.handle)) t' := by
  simp only [rebuildCharacteristics, Except.map] at h
  split at h
  · cases h
  next e he =>
    cases h
    refine (stems_foldl stems_dropCharacteristic e.value.characteristics t).trans fun x a hx => ?_
    cases a with
    | descriptor k => exact .inl hx
    | service k => exact .inl (HandleTable.handle?_of_modify hx fun _ => rfl)
    | characteristic k =>
      exact (HandleTable.handle?_registerAll _ _ _ hx).imp_right fun hk => by simpa using hk

variable [DecidableEq S]

theorem stems_dropService (t : Tree S C D) (id : AttrId) : t.Stems listed (t.dropService id) := by
  have hretire : t.Stems listed { t with services := (t.services.retire id).2 } := by
    intro x a hx
    cases a with
    | characteristic k | descriptor k => exact .inl hx
    | service k => exact .inl ((t.services.without_retire id).handle? hx).2
  simp only [dropService]
  split
  · exact .refl t
  next e ss hss =>
    rw [hss] at hretire
    exact hretire.trans (stems_foldl stems_dropCharacteristic _ _)

theorem stems_rebuildServices (t : Tree S C D) (ids : IdSource) (found : List (Found S)) :
    t.Stems (found.map (.service ·.handle)) (t.rebuildServices ids found).1 := by
  have hbare : t.Stems (found.map (.service ·.handle))
      (t.order.foldl dropService { t with order := [] }) :=
    stems_foldl stems_dropService t.order { t with order := [] }
  refine hbare.trans fun x a hx => ?_
  cases a with
  | characteristic k | descriptor k => exact .inl hx
  | service k =>
    exact (HandleTable.handle?_registerAll _ _ _ hx).imp_right fun hk => by simpa using hk

end Gatt.Tree

namespace Peer

/-- The attributes of a peer are those that it had, and those that the report lists. -/
theorem stems_receive (settings : Settings) (ids : IdSource) (q : Peer H) (report : PeerReport H) :
    q.tree.Stems report.listed (q.receive settings ids report).state.1.tree := by
  cases report with
  | servicesDiscovered status found =>
    simp only [receive, servicesDiscovered]
    split
    · exact .refl _
    · split
      · exact q.tree.stems_rebuildServices ids found
      · exact .refl _
  | characteristicsDiscovered status service found =>
    have hd := q.discovers_characteristicsDiscovered ids status service found
    generalize Effect.notices _ = ns at hd
    simp only [receive]
    generalize (q.characteristicsDiscovered ids status service found).state = s at hd ⊢
    obtain ⟨q', ids'⟩ := s
    cases hd with
    | rebuilt id rest built _ _ _ hbuilt => exact Tree.stems_rebuildCharacteristics hbuilt
    | unmatched | failed | stale => exact .refl _
  | descriptorsDiscovered status characteristic found =>
    have hd := q.discovers_descriptorsDiscovered ids status characteristic found
    generalize Effect.notices _ = ns at hd
    simp only [receive]
    generalize (q.descriptorsDiscovered ids status characteristic found).state = s at hd ⊢
    obtain ⟨q', ids'⟩ := s
    cases hd with
    | rebuilt id rest built _ _ _ hbuilt => exact Tree.stems_rebuildDescriptors hbuilt
    | unmatched | failed | stale => exact .refl _
  | _ =>
    rw [tree_receive rfl]
    exact .refl _

end Peer

/-- The host knows a tracked peer by this object. -/
def Hub.Knows (h : Hub H) (c : CentralId) (p : PeerId) (n : H.Peer) : Prop :=
  ∃ q, h.peer? c p = some q ∧ q.native = n

namespace Central

theorem retains_startScan (answers : Answers H) (m : Central H) (allowDuplicates : Bool) :
    m.Retains (m.startScan answers allowDuplicates).state := by
  simp only [startScan]
  split <;> exact retains_of_peers rfl

theorem retains_stopScan (answers : Answers H) (m : Central H) :
    m.Retains (m.stopScan answers).state := by
  simp only [stopScan]
  split <;> exact retains_of_peers rfl

end Central

namespace Hub

variable {h : Hub H} {c c' : CentralId} {p p' : PeerId} {n : H.Peer}

theorem Knows.of_retains {m m' : Central H} (hm : h.centrals.get? c' = some m)
    (hret : m.Retains m') {h' : Hub H} (hc : h'.centrals = h.centrals.insert c' m')
    (hk : h'.Knows c p n) : h.Knows c p n := by
  obtain ⟨q', hq', rfl⟩ := hk
  rw [peer?_of_insert hc] at hq'
  split at hq'
  next heq =>
    subst heq
    obtain ⟨q, hq, hnative⟩ := hret p q' hq'
    exact ⟨q, (peer?_of_get? hm p).trans hq, hnative.symm⟩
  next => exact ⟨q', hq', rfl⟩

theorem Knows.of_withCentral {α : Type} {f : Central H → Response H (Central H) α}
    (hret : ∀ m : Central H, m.Retains (f m).state) (hk : (h.withCentral c' f).state.Knows c p n) :
    h.Knows c p n := by
  rcases h.withCentral_cases c' f with ⟨-, hs, -⟩ | ⟨m, hm, hs, -⟩
  · rwa [hs] at hk
  · rw [hs] at hk
    exact hk.of_retains hm (hret m) rfl

/-- A request to a peer makes just this peer known, and only if it was not tracked. -/
theorem Knows.of_withPeer (hl : h.Labelled) {α : Type} {answers : Answers H}
    {f : Peer H → Response H (Peer H) α} (hf : ∀ q, (f q).state.native = q.native)
    (hk : (h.withCentral c' (·.withPeer answers p' f)).state.Knows c p n) :
    h.Knows c p n ∨ h.peer? c p = none ∧ answers.lookup c p = some n := by
  have hset {q : Peer H} {m : Central H} (hm : h.centrals.get? c' = some m)
      (hk : (h.setPeer c' p' q).Knows c p n) :
      h.Knows c p n ∨ c = c' ∧ p = p' ∧ q.native = n := by
    obtain ⟨q', hq', rfl⟩ := hk
    rw [peer?_setPeer hm] at hq'
    split at hq'
    next hcp =>
      cases hq'
      exact .inr ⟨hcp.1, hcp.2, rfl⟩
    next => exact .inl ⟨q', hq', rfl⟩
  cases hm : h.centrals.get? c' with
  | none =>
    rw [withCentral_none hm] at hk
    exact .inl hk
  | some m =>
    cases hq : m.peers.get? p' with
    | some q =>
      have hpeer : h.peer? c' p' = some q := (peer?_of_get? hm p').trans hq
      rw [withPeer_tracked hpeer] at hk
      left
      rcases hset hm hk with hk | ⟨rfl, rfl, hn⟩
      · exact hk
      · exact ⟨q, hpeer, (hf q).symm.trans hn⟩
    | none =>
      cases hlookup : answers.lookup c' p' with
      | none =>
        rw [withPeer_unknown hm (hl.central_id hm) hq hlookup] at hk
        exact .inl hk
      | some native =>
        rw [withPeer_known hm (hl.central_id hm) hq hlookup] at hk
        rcases hset hm hk with hk | ⟨rfl, rfl, hn⟩
        · exact .inl hk
        · rw [hf] at hn
          exact .inr ⟨(peer?_of_get? hm p).trans hq, hlookup.trans (congrArg some hn)⟩

end Hub

namespace Moment

variable {t : Moment H} {c : CentralId} {p : PeerId}

/-- The host lists an attribute of the peer. -/
def Lists (t : Moment H) (c : CentralId) (p : PeerId)
    (a : Native H.Service H.Characteristic H.Descriptor) : Prop :=
  ∃ report, t.move = .report c (.peer p report) ∧ a ∈ report.listed

/-- The host makes a peer known that is not tracked yet. -/
def Introduces (t : Moment H) (c : CentralId) (p : PeerId) (n : H.Peer) : Prop :=
  t.hub.peer? c p = none ∧
    ∃ answers r, t.move = .request answers r ∧ answers.lookup c p = some n

theorem names_after (hl : t.hub.Labelled) {h : Hub H} (ha : t.after = some h) {x : AttrId}
    {a : Native H.Service H.Characteristic H.Descriptor} (hx : h.Names c p x a) :
    t.hub.Names c p x a ∨ t.Lists c p a := by
  obtain ⟨q', hq', hx⟩ := hx
  by_cases hreport : ∃ q report, t.move = .report c (.peer p report) ∧ t.before c p = some q
  · obtain ⟨q, report, hm, hq⟩ := hreport
    have hlater := (reported_spec hm hq).1
    rw [later_eq ha, hq', Option.some.injEq] at hlater
    subst hlater
    rcases q.stems_receive t.hub.settings t.hub.ids report x a hx with hx | ha
    · exact .inl ⟨q, hq, hx⟩
    · exact .inr ⟨report, hm, ha⟩
  · left
    rcases names_of_unreported hl ha hq' fun q report hm hq => hreport ⟨q, report, hm, hq⟩ with
      hempty | ⟨q, hq, htree⟩
    · rw [hempty] at hx
      exact absurd hx Tree.not_names_empty
    · exact ⟨q, hq, htree ▸ hx⟩

theorem knows_after (hl : t.hub.Labelled) {h : Hub H} (ha : t.after = some h) {n : H.Peer}
    (hk : h.Knows c p n) : t.hub.Knows c p n ∨ t.Introduces c p n := by
  obtain ⟨h₀, m⟩ := t
  -- Only `act` and `attMtu` look a peer up; all other messages keep the peers, or drop some.
  cases m with
  | shutdown answers => cases ha
  | report c₀ r =>
    cases ha
    left
    simp only [Hub.receive] at hk
    split at hk
    next => exact hk
    next m hm => exact hk.of_retains hm (m.retains_receive _ _ r) rfl
  | request answers r =>
    cases ha
    have hnew (hlookup : h₀.Knows c p n ∨ h₀.peer? c p = none ∧ answers.lookup c p = some n) :
        h₀.Knows c p n ∨ (Moment.mk h₀ (.request answers r)).Introduces c p n :=
      hlookup.imp_right fun hnew => ⟨hnew.1, answers, r, rfl, hnew.2⟩
    cases r with
    | allocate =>
      left
      simp only [Hub.request, Hub.reply, Hub.allocate] at hk
      split at hk
      · exact hk
      · obtain ⟨q, hq, hn⟩ := hk
        rw [Hub.peer?_of_insert rfl] at hq
        split at hq
        · cases hq
        · exact ⟨q, hq, hn⟩
    | destroy c₀ =>
      left
      obtain ⟨q, hq, hn⟩ := hk
      refine ⟨q, ?_, hn⟩
      simp only [Hub.request, Hub.reply, Hub.destroy, Hub.destroyIn] at hq
      split at hq
      · exact hq
      · simp only [Hub.peer?, Table.get?_erase] at hq
        split at hq
        · cases hq
        · exact hq
    | scan c₀ allowDuplicates =>
      exact .inl (Hub.Knows.of_withCentral (fun m => m.retains_startScan answers _) hk)
    | stopScan c₀ => exact .inl (Hub.Knows.of_withCentral (fun m => m.retains_stopScan answers) hk)
    | forget c₀ p₀ =>
      rw [show (h₀.request answers (.forget c₀ p₀)).state = _ from (Hub.noting_spec _ _ _).1] at hk
      exact .inl (Hub.Knows.of_withCentral (fun m => m.retains_forget p₀) hk)
    | act c₀ p₀ action =>
      rw [show (h₀.request answers (.act c₀ p₀ action)).state = _ from (Hub.noting_spec _ _ _).1]
        at hk
      exact hnew (hk.of_withPeer hl fun q => q.native_perform answers action)
    | attMtu c₀ p₀ =>
      exact hnew (Hub.Knows.of_withPeer hl (fun q => by rw [(q.attMtu_spec answers).1]) hk)
    | query q => exact .inl hk

end Moment

/-- What holds came about in a moment of the given kind, and has held ever since. -/
def Originates (P : Hub H → Prop) (E : Moment H → Prop) (past : List (Moment H)) : Prop :=
  ∃ ts t us, past = ts ++ t :: us ∧ E t ∧ ¬ P t.hub ∧ ∀ v ∈ t :: us, ∃ h, v.after = some h ∧ P h

/-- An identity was given out when the host listed the attribute, and stands for it ever since. -/
def Minted (c : CentralId) (p : PeerId) (x : AttrId)
    (a : Native H.Service H.Characteristic H.Descriptor) (past : List (Moment H)) : Prop :=
  Originates (·.Names c p x a) (·.Lists c p a) past

/-- A peer came to be tracked by this object of the host, and is tracked by it ever since. -/
def Introduced (c : CentralId) (p : PeerId) (n : H.Peer) (past : List (Moment H)) : Prop :=
  Originates (·.Knows c p n) (·.Introduces c p n) past

namespace Run

variable (settings : Settings) (ms : List (Move H))

theorem originates {P : Hub H → Prop} {E : Moment H → Prop} (hnew : ¬ P (.new settings))
    (hstep : ∀ (t : Moment H) h, t.hub.Labelled → t.after = some h → P h → P t.hub ∨ E t)
    {h : Hub H} (hr : (of settings ms).hub = some h) (hP : P h) :
    Originates P E (of settings ms).past := by
  revert h
  refine of_induction (P := fun r => ∀ {h}, r.hub = some h → P h → Originates P E r.past)
    settings ?_ ?_ ms
  · rintro h ⟨⟩ hP
    exact absurd hP hnew
  · intro ms h m hr ih h' ha hP'
    by_cases hP : P h
    · -- It held before this message, so it came about in an earlier moment.
      obtain ⟨ts, t, us, hpast, hE, hno, hsince⟩ := ih hr hP
      refine ⟨ts, t, us ++ [⟨h, m⟩], by rw [hpast]; simp, hE, hno, fun v hv => ?_⟩
      rw [← List.cons_append, List.mem_append, List.mem_singleton] at hv
      rcases hv with hv | rfl
      · exact hsince v hv
      · exact ⟨h', ha, hP'⟩
    · have hE : E ⟨h, m⟩ :=
        (hstep ⟨h, m⟩ h' ((labelled settings ms).2 h hr) ha hP').resolve_left hP
      refine ⟨_, ⟨h, m⟩, [], rfl, hE, hP, fun v hv => ?_⟩
      rw [List.mem_singleton.mp hv]
      exact ⟨h', ha, hP'⟩

theorem minted {h : Hub H} (hr : (of settings ms).hub = some h) {c : CentralId} {p : PeerId}
    {x : AttrId} {a : Native H.Service H.Characteristic H.Descriptor} (hx : h.Names c p x a) :
    Minted c p x a (of settings ms).past :=
  originates settings ms (fun ⟨_, hq, _⟩ => by cases hq)
    (fun _ _ hl ha hx => Moment.names_after hl ha hx) hr hx

theorem introduced {h : Hub H} (hr : (of settings ms).hub = some h) {c : CentralId} {p : PeerId}
    {q : Peer H} (hq : h.peer? c p = some q) : Introduced c p q.native (of settings ms).past :=
  originates settings ms (fun ⟨_, hq, _⟩ => by cases hq)
    (fun _ _ hl ha hk => Moment.knows_after hl ha hk) hr ⟨q, hq, rfl⟩

end Run

end GattHub
