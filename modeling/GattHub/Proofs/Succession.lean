import GattHub.Proofs.Locality
import GattHub.Proofs.Teardown

/-! Managers one after the other. The identities given out ascend, and a manager that was closed
never comes back: it is unknown to callers, and nothing is done in its name, whatever is still
reported to it. -/

namespace GattHub

variable {H : Handles}

namespace Request

variable {r : Request String} {c : CentralId}

theorem resolve_of_manager (hr : r.subject? = some (c, none)) :
    ∃ r', r.resolve = .ok r' ∧ r'.subject? = some (c, none) := by
  cases r with
  | query q => cases q <;> cases hr <;> exact ⟨_, rfl, rfl⟩
  | _ => cases hr <;> exact ⟨_, rfl, rfl⟩

theorem resolve_of_peer {text : String} (hr : r.subject? = some (c, some text)) :
    ∃ f : PeerId → Request PeerId, r.resolve = (Query.resolve.named text).map f ∧
      ∀ p, (f p).subject? = some (c, some p) := by
  cases r with
  | query q =>
    obtain ⟨f, hf, hsubject⟩ : ∃ f : PeerId → Query PeerId,
        q.resolve = (Query.resolve.named text).map f ∧ ∀ p, (f p).subject? = some (c, some p) := by
      cases q <;> cases hr <;> rw [Query.resolve] <;> exact ⟨_, rfl, fun _ => rfl⟩
    refine ⟨fun p => .query (f p), ?_, hsubject⟩
    rw [resolve, hf]
    cases Query.resolve.named text <;> rfl
  | _ => cases hr <;> rw [resolve] <;> exact ⟨_, rfl, fun _ => rfl⟩

end Request

namespace Moment

/-- The identity that was answered to a request to open a manager. -/
def allocated? (t : Moment H) : Option CentralId :=
  match t.move, t.reply? with
  | .request _ .allocate, some (.ok (.allocated c)) => some c
  | _, _ => none

/-- The manager was closed as asked for. -/
def Destroys (t : Moment H) (c : CentralId) : Prop :=
  (∃ answers, t.move = .request answers (.destroy c)) ∧ t.reply? = some (.ok .done)

end Moment

theorem Deed.Concerns.central {c : CentralId} {p? : Option PeerId}
    {known : PeerId → H.Peer → Prop} {d : Deed H} (h : d.Concerns c p? known) : d.central = c := by
  cases d with
  | notice n => exact h.1
  | call c' k =>
    cases k with
    | lookup p | peer n k => exact h.1
    | _ => exact h

theorem Peer.central_closingDeeds (q : Peer H) : ∀ d ∈ q.closingDeeds, d.central = q.central := by
  cases hs : q.state <;>
    simp +contextual [closingDeeds, hs, Deed.central, notice, Notice.central, or_imp]

theorem Peer.close_notMem_closingDeeds (q : Peer H) (c : CentralId) :
    .call c .close ∉ q.closingDeeds := by
  cases hs : q.state <;> simp [closingDeeds, hs]

namespace Central

variable {m : Central H} {peers : List (Peer H)}

theorem central_closingDeeds (hpeers : ∀ q ∈ peers, q.central = m.id) :
    ∀ d ∈ m.closingDeeds peers, d.central = m.id := by
  intro d hd
  simp only [closingDeeds, List.mem_append, List.mem_flatMap, List.mem_singleton] at hd
  rcases hd with (hd | ⟨q, hq, hd⟩) | rfl
  · split at hd <;> simp at hd
    rw [hd]
    rfl
  · rw [q.central_closingDeeds d hd, hpeers q hq]
  · rfl

/-- The host's side is closed last, and once. -/
theorem closingDeeds_eq_close (m : Central H) (peers : List (Peer H)) :
    ∃ ds, m.closingDeeds peers = ds ++ [.call m.id .close] ∧ .call m.id .close ∉ ds := by
  refine ⟨_, rfl, ?_⟩
  rw [List.mem_append, List.mem_flatMap, not_or]
  refine ⟨by split <;> simp, ?_⟩
  rintro ⟨q, -, hd⟩
  exact q.close_notMem_closingDeeds m.id hd

end Central

namespace Hub

variable {h : Hub H} {c : CentralId}

theorem deeds_destroyIn (hl : h.Labelled) (order : Central H → List PeerId) (answers : Answers H)
    {m : Central H} (hm : h.centrals.get? c = some m) :
    Effect.deeds (h.destroyIn order answers c).effects =
      m.closingDeeds ((order m).filterMap m.peers.get?) ∧
    ∀ q ∈ (order m).filterMap m.peers.get?, q.central = m.id := by
  refine ⟨by simp [destroyIn_some order answers hm, Central.deeds_teardown], fun q hq => ?_⟩
  obtain ⟨p, -, hq⟩ := List.mem_filterMap.mp hq
  exact (hl.central hm p q hq).1

/-- Closing a manager is done in its name alone. -/
theorem central_destroyIn (hl : h.Labelled) (order : Central H → List PeerId)
    (answers : Answers H) (c : CentralId) :
    ∀ d ∈ Effect.deeds (h.destroyIn order answers c).effects, d.central = c := by
  intro d hd
  cases hm : h.centrals.get? c with
  | none =>
    rw [destroyIn, central_of_none hm] at hd
    cases hd
  | some m =>
    obtain ⟨hdeeds, hpeers⟩ := deeds_destroyIn hl order answers hm
    rw [hdeeds] at hd
    rw [Central.central_closingDeeds hpeers d hd, hl.central_id hm]

theorem central_request (hl : h.Labelled) (answers : Answers H) {r : Request PeerId}
    {p? : Option PeerId} (hr : r.subject? = some (c, p?)) :
    ∀ d ∈ Effect.deeds (h.request answers r).effects, d.central = c := by
  have hconfined (hmove : (Move.request answers r).subject? = some (c, p?)) :
      ∀ d ∈ Effect.deeds (h.request answers r).effects, d.central = c :=
    fun d hd => ((confined_request hl answers hmove).deeds d hd).central
  cases r with
  | destroy c₀ =>
    cases hr
    exact central_destroyIn hl trackingOrder answers c
  | _ => exact hconfined hr

/-- Nobody can reach a manager that is not there. -/
theorem request_absent (hc : h.centrals.get? c = none) (answers : Answers H) {r : Request PeerId}
    {p? : Option PeerId} (hr : r.subject? = some (c, p?)) :
    (h.request answers r).state = h ∧ (h.request answers r).result = .error (.unknownCentral c) ∧
      Effect.deeds (h.request answers r).effects = [] := by
  have hcentral := central_of_none hc
  cases r with
  | allocate => cases hr
  | destroy c₀ =>
    cases hr
    simp [request, reply, destroy, destroyIn, hcentral, Except.map]
  | query q =>
    refine ⟨rfl, ?_, rfl⟩
    cases q <;> cases hr <;>
      simp [request, answer, Hub.peer, hcentral, Except.map, Except.bind]
  | scan | stopScan | attMtu =>
    cases hr
    simp [request, reply, withCentral_none hc, Except.map]
  | forget | act =>
    cases hr
    simp [request, noting, reply, withCentral_none hc, Except.map]

theorem Numbered.next_ne {n i : Nat} (hn : h.Numbered n) (hbound : n < UInt64.size) (hi : i < n) :
    h.next ≠ ⟨.ofNat (i + 1)⟩ := by
  intro heq
  rw [hn.next_eq] at heq
  have hmod := congrArg UInt64.toNat (congrArg CentralId.raw heq)
  simp only [UInt64.toNat_ofNat'] at hmod
  rw [UInt64.size] at hbound
  omega

theorem receive_absent (hc : h.centrals.get? c = none) (r : Report H) :
    h.receive c r = ⟨h, [.log (.misrouted c r)]⟩ := by
  simp [receive, hc]

end Hub

/-- A caller who names a manager that is not there is turned down, and nothing comes of it. -/
theorem Request.serve_absent {hub : Option (Hub H)} {c : CentralId}
    (hc : ∀ h, hub = some h → h.centrals.get? c = none) (answers : Answers H) {r : Request String}
    {text? : Option String} (hr : r.subject? = some (c, text?)) :
    (r.serve answers hub).state = hub ∧ Effect.deeds (r.serve answers hub).effects = [] ∧
      (∀ text, text? = some text → PeerId.parse? text = none →
        (r.serve answers hub).result = .error (.malformedPeer text)) ∧
      ((∀ text, text? = some text → (PeerId.parse? text).isSome) →
        (r.serve answers hub).result =
          .error (if hub.isSome then .unknownCentral c else .closed)) := by
  have hresolved {r' : Request PeerId} {p? : Option PeerId} (hok : r.resolve = .ok r')
      (hr' : r'.subject? = some (c, p?)) :
      (r.serve answers hub).state = hub ∧ Effect.deeds (r.serve answers hub).effects = [] ∧
        (r.serve answers hub).result =
          .error (if hub.isSome then .unknownCentral c else .closed) := by
    cases hub with
    | none =>
      rw [serve_none hok]
      exact ⟨rfl, rfl, rfl⟩
    | some h =>
      obtain ⟨hstate, hresult, hdeeds⟩ := Hub.request_absent (hc h rfl) answers hr'
      rw [serve_some hok]
      exact ⟨congrArg some hstate, hdeeds, hresult⟩
  cases text? with
  | none =>
    obtain ⟨r', hok, hr'⟩ := resolve_of_manager hr
    obtain ⟨hstate, hdeeds, hresult⟩ := hresolved hok hr'
    exact ⟨hstate, hdeeds, nofun, fun _ => hresult⟩
  | some text =>
    obtain ⟨f, hresolve, hf⟩ := resolve_of_peer hr
    cases hp : PeerId.parse? text with
    | none =>
      have hno : r.resolve = .error (.malformedPeer text) := by
        simp [hresolve, Query.resolve.named, hp, Except.map]
      rw [serve_of_error hno]
      refine ⟨rfl, rfl, ?_, fun hall => ?_⟩
      · rintro _ ⟨⟩ -
        rfl
      · simpa [hp] using hall text rfl
    | some p =>
      have hok : r.resolve = .ok (f p) := by simp [hresolve, Query.resolve.named, hp, Except.map]
      obtain ⟨hstate, hdeeds, hresult⟩ := hresolved hok (hf p)
      refine ⟨hstate, hdeeds, ?_, fun _ => hresult⟩
      rintro _ ⟨⟩ hnone
      rw [hp] at hnone
      cases hnone

namespace Moment

variable {t : Moment H} {c : CentralId}

/-- Nothing is done in the name of a manager that is neither there nor opened. -/
theorem deeds_of_absent (hl : t.hub.Labelled) (hc : t.hub.centrals.get? c = none)
    (hnext : t.hub.next ≠ c) : ∀ d ∈ Effect.deeds t.effects, d.central ≠ c := by
  obtain ⟨h, m⟩ := t
  intro d hd
  cases m with
  | report c' r =>
    change d ∈ Effect.deeds (h.receive c' r).effects at hd
    by_cases heq : c' = c
    · rw [heq, Hub.receive_absent hc] at hd
      cases hd
    · obtain ⟨p?, hsubject⟩ : ∃ p?, (Move.report c' r).subject? = some (c', p?) := by
        cases r <;> exact ⟨_, rfl⟩
      rwa [((Hub.confined_receive hl hsubject).deeds d hd).central]
  | shutdown answers =>
    -- only managers that are there are closed
    change d ∈ Effect.deeds (h.shutdown answers).effects at hd
    rw [Hub.shutdown_effects, Effect.deeds_flatMap, List.mem_flatMap] at hd
    obtain ⟨c', hc', hd⟩ := hd
    rw [Hub.central_destroyIn hl Hub.trackingOrder answers c' d hd]
    rintro rfl
    simp [Hub.mem_centralIds, hc] at hc'
  | request answers r =>
    change d ∈ Effect.deeds (h.request answers r).effects at hd
    cases hr : r.subject? with
    | some s =>
      obtain ⟨c', p?⟩ := s
      by_cases heq : c' = c
      · rw [(Hub.request_absent (heq ▸ hc) answers hr).2.2] at hd
        cases hd
      · rwa [Hub.central_request hl answers hr d hd]
    | none =>
      cases r with
      | allocate =>
        have hcentral : d.central = h.next := by
          simp only [Hub.request, Hub.reply, Hub.allocate] at hd
          split at hd <;> simp at hd <;> rw [hd] <;> rfl
        rwa [hcentral]
      | query q => cases hd
      | _ => cases hr

theorem allocated?_eq (t : Moment H) :
    t.allocated? = if t.allocates then some t.hub.next else none := by
  obtain ⟨h, m⟩ := t
  cases m with
  | report | shutdown => rfl
  | request answers r =>
    cases r with
    | allocate =>
      cases hrefusal : answers.refusal h.next .openCentral <;>
        simp [allocated?, reply?, allocates, Hub.request, Hub.reply, Hub.allocate, hrefusal,
          Except.map, Except.isOk, Except.toBool]
    | _ => rfl

theorem Destroys.live (ht : t.Destroys c) : ∃ answers m, t.move = .request answers (.destroy c) ∧
    t.hub.centrals.get? c = some m := by
  obtain ⟨h, move⟩ := t
  obtain ⟨⟨answers, rfl⟩, hdone⟩ := ht
  cases hm : h.centrals.get? c with
  | some m => exact ⟨answers, m, rfl, rfl⟩
  | none =>
    have hno := (Hub.request_absent hm answers (r := .destroy c) rfl).2.1
    rw [show (Moment.mk h (.request answers (.destroy c))).reply? = some _ from
      congrArg some hno] at hdone
    cases hdone

/-- With the manager goes what it did; its last call closes the host's side. -/
theorem Destroys.spec (hl : t.hub.Labelled) (ht : t.Destroys c) :
    (∃ ds, Effect.deeds t.effects = ds ++ [.call c .close] ∧ .call c .close ∉ ds) ∧
      ∀ h, t.after = some h → h.centrals.get? c = none := by
  obtain ⟨answers, m, hmove, hm⟩ := ht.live
  obtain ⟨h, move⟩ := t
  cases hmove
  obtain ⟨hdeeds, -⟩ := Hub.deeds_destroyIn hl Hub.trackingOrder answers hm
  obtain ⟨ds, hds, hnot⟩ := m.closingDeeds_eq_close ((Hub.trackingOrder m).filterMap m.peers.get?)
  rw [hl.central_id hm] at hds hnot
  refine ⟨⟨ds, hdeeds.trans hds, hnot⟩, ?_⟩
  rintro _ ⟨⟩
  simp [Hub.request, Hub.reply, Hub.destroy, Hub.destroyIn_some _ answers hm, Table.get?_erase]

end Moment

namespace Run

variable (settings : Settings) (ms : List (Move H))

/-- The identities of managers are given out in the order of the numbers. -/
theorem allocated_eq : (of settings ms).past.filterMap Moment.allocated? =
    (List.range (of settings ms).allocations).map fun i => ⟨.ofNat (i + 1)⟩ := by
  refine of_induction (P := fun r => r.past.filterMap Moment.allocated? =
    (List.range r.allocations).map fun i => ⟨.ofNat (i + 1)⟩) settings rfl ?_ ms
  intro ms h m hr ih
  have hnext := (numbered settings ms h hr).next_eq
  rw [List.filterMap_append, ih]
  cases hyes : (Moment.mk h m).allocates <;>
    simp [allocations, Moment.allocated?_eq, hyes, hnext, List.range_succ]

theorem allocated_pairwise (hbound : (of settings ms).allocations < UInt64.size - 1) :
    ((of settings ms).past.filterMap Moment.allocated?).Pairwise (·.raw < ·.raw) := by
  rw [allocated_eq, List.pairwise_map]
  refine List.pairwise_lt_range.imp_of_mem fun {i j} hi hj hij => ?_
  rw [List.mem_range] at hi hj
  rw [UInt64.lt_iff_toNat_lt, UInt64.toNat_ofNat_of_lt' (by omega),
    UInt64.toNat_ofNat_of_lt' (by omega)]
  omega

/-- A manager that was closed had one of the identities given out so far, and is not there. -/
theorem gone {c : CentralId} {t : Moment H} (hgone : t.Destroys c)
    (hbound : (of settings ms).allocations < UInt64.size) (ht : t ∈ (of settings ms).past) :
    (∃ i < (of settings ms).allocations, c = ⟨.ofNat (i + 1)⟩) ∧
      ∀ h, (of settings ms).hub = some h → h.centrals.get? c = none := by
  revert hbound ht
  refine of_induction (P := fun r => r.allocations < UInt64.size → t ∈ r.past →
    (∃ i < r.allocations, c = ⟨.ofNat (i + 1)⟩) ∧
      ∀ h, r.hub = some h → h.centrals.get? c = none) settings (fun _ h => by cases h) ?_ ms
  intro ms h m hr ih hbound ht
  have hle : (of settings ms).allocations ≤
      allocations ⟨(of settings ms).past ++ [⟨h, m⟩], (Moment.mk h m).after⟩ := allocations_le
  have hn := numbered settings ms h hr
  rw [List.mem_append, List.mem_singleton] at ht
  rcases ht with ht | rfl
  · obtain ⟨⟨i, hi, hc⟩, hnone⟩ := ih (by omega) ht
    refine ⟨⟨i, by omega, hc⟩, fun h' ha => ?_⟩
    cases hm : h'.centrals.get? c with
    | none => rfl
    | some m' =>
      -- it was there before, or it has the next identity, which none had before
      rcases ((Moment.mk h m).manages ha).central hm with ⟨m₀, hm₀, -⟩ | ⟨-, hnew, -⟩
      · rw [hnone h hr] at hm₀
        cases hm₀
      · exact absurd (hnew.symm.trans hc) (hn.next_ne (by omega) hi)
  · obtain ⟨-, m₀, -, hm₀⟩ := hgone.live
    obtain ⟨i, hi, hc⟩ := hn.central hm₀
    exact ⟨⟨i, by omega, hc⟩, (hgone.spec ((labelled settings ms).2 h hr)).2⟩

/-- The identities answered to those who open managers ascend. A manager that was closed is closed
for good: its last call was to close the host's side; callers who name it are told that it is not
known, unless the text that they give names no peer or the hub is gone, which is told first; and
nothing is called or made known in its name, whatever is reported to it. -/
theorem closed_for_good (hbound : (of settings ms).allocations < UInt64.size - 1) :
    ((of settings ms).past.filterMap Moment.allocated?).Pairwise (·.raw < ·.raw) ∧
    ∀ ts t us c, (of settings ms).past = ts ++ t :: us → t.Destroys c →
      (∃ ds, Effect.deeds t.effects = ds ++ [.call c .close] ∧ .call c .close ∉ ds) ∧
      (∀ answers (r : Request String) text?, r.subject? = some (c, text?) →
        let s := r.serve answers (of settings ms).hub
        s.state = (of settings ms).hub ∧ Effect.deeds s.effects = [] ∧
        (∀ text, text? = some text → PeerId.parse? text = none →
          s.result = .error (.malformedPeer text)) ∧
        ((∀ text, text? = some text → (PeerId.parse? text).isSome) →
          s.result = .error (if (of settings ms).hub.isSome then .unknownCentral c else .closed))) ∧
      ∀ u ∈ us, (∀ k, (c, k) ∉ Effect.calls u.effects) ∧ (∀ n ∈ u.notices, n.central ≠ c) ∧
        ∀ r, u.move = .report c r → Effect.deeds u.effects = [] ∧ u.after = some u.hub := by
  refine ⟨allocated_pairwise settings ms hbound, fun ts t us c hpast hgone => ?_⟩
  have ht : t ∈ (of settings ms).past := by simp [hpast]
  refine ⟨(hgone.spec ((labelled settings ms).1 t ht)).1, fun answers r text? hr =>
    Request.serve_absent (gone settings ms hgone (by omega) ht).2 answers hr, fun u hu => ?_⟩
  obtain ⟨us₁, us₂, rfl⟩ := List.append_of_mem hu
  rw [← List.cons_append, ← List.append_assoc] at hpast
  obtain ⟨ms', hpast', hr⟩ := exists_of_past_eq settings ms hpast
  have hle : (of settings ms').allocations ≤ (of settings ms).allocations := by
    rw [allocations, allocations, hpast', hpast]
    exact allocations_le (x := none) (y := none)
  obtain ⟨⟨i, hi, hc⟩, hnone⟩ :=
    gone settings ms' hgone (by omega) (by simp [hpast'] : t ∈ (of settings ms').past)
  have hnext : u.hub.next ≠ c := by
    rw [hc]
    exact (numbered settings ms' u.hub hr).next_ne (by omega) hi
  have hsilent := Moment.deeds_of_absent ((labelled settings ms').2 u.hub hr) (hnone u.hub hr) hnext
  refine ⟨fun k hk => ?_, fun n hn => ?_, fun r hmove => ?_⟩
  · exact hsilent _ (Effect.mem_deeds_call.mpr hk) rfl
  · exact hsilent _ (Effect.mem_deeds_notice.mpr hn)
  · have hreceive := Hub.receive_absent (hnone u.hub hr) r
    simp [Moment.effects, Moment.after, Moment.step, hmove, hreceive]

/-- A manager is closed. -/
def leaving : Moment .numbers :=
  ⟨(of .default [.request .agreeing .allocate]).hub.getD (.new .default),
    .request .agreeing (.destroy ⟨1⟩)⟩

/-- The power state of the radio is still reported to it. -/
def tooLate : Moment .numbers :=
  ⟨(of .default [.request .agreeing .allocate, leaving.move]).hub.getD (.new .default),
    .report ⟨1⟩ (.stateChanged true "")⟩

theorem destroys_leaving : leaving.Destroys ⟨1⟩ := ⟨⟨.agreeing, rfl⟩, rfl⟩

/-- The next manager has the next identity. -/
theorem closed_for_good_late :
    let ms : List (Move .numbers) :=
      [.request .agreeing .allocate, leaving.move, tooLate.move, .request .agreeing .allocate]
    (of .default ms).allocations < UInt64.size - 1 ∧
      (of .default ms).past.filterMap Moment.allocated? = [⟨1⟩, ⟨2⟩] ∧
      tooLate ∈ (of .default ms).past ∧ Effect.deeds tooLate.effects = [] ∧
      ((Request.scan ⟨1⟩ false).serve .agreeing (of .default ms).hub).result =
        .error (.unknownCentral ⟨1⟩) := by
  intro ms
  have hbound : (of .default ms).allocations < UInt64.size - 1 := by decide
  obtain ⟨first, last, hpast⟩ : ∃ first last, (of .default ms).past =
      [first] ++ leaving :: [tooLate, last] := ⟨_, _, rfl⟩
  obtain ⟨-, hserved, hlate⟩ :=
    (closed_for_good .default ms hbound).2 _ _ _ _ hpast destroys_leaving
  refine ⟨hbound, by decide, by simp [hpast], ?_, ?_⟩
  · exact ((hlate tooLate List.mem_cons_self).2.2 _ rfl).1
  · exact (hserved .agreeing (.scan ⟨1⟩ false) none rfl).2.2.2 nofun

/-- A closed manager is not always told to be unknown: of a text that names no peer just this is
told, and after a shutdown it is told that the hub is gone. -/
theorem unknown_after_close_malformed :
    let ms : List (Move .numbers) := [.request .agreeing .allocate, leaving.move]
    let asked := Request.act ⟨1⟩ "x" .connect
    (of .default ms).allocations < UInt64.size - 1 ∧ leaving ∈ (of .default ms).past ∧
      leaving.Destroys ⟨1⟩ ∧ asked.subject? = some (⟨1⟩, some "x") ∧
      (asked.serve .agreeing (of .default ms).hub).result = .error (.malformedPeer "x") ∧
      (asked.serve .agreeing (of .default ms).hub).result ≠ .error (.unknownCentral ⟨1⟩) ∧
      ((Request.scan ⟨1⟩ false).serve .agreeing
        (of .default (ms ++ [.shutdown .agreeing])).hub).result = .error .closed :=
  ⟨by decide, List.mem_cons_of_mem _ List.mem_cons_self, destroys_leaving, rfl, by decide,
    by decide, rfl⟩

end Run

end GattHub
