import GattHub.Proofs.Locality
import GattHub.Proofs.Teardown

/-! The power state of a manager. It is what the last report of the adapter said, each such report is
passed on, and nothing else that happens to the manager says anything of power. -/

namespace GattHub

variable {H : Handles}

/-- What a notice says of the power of a manager. -/
def Notice.power? (c : CentralId) : Notice → Option Bool
  | .stateChanged c' on _ => if c' = c then some on else none
  | .discovered .. | .peer .. => none

/-- What a message says of the power of a manager. -/
def Message.power? (c : CentralId) : Message H → Option Bool
  | .report c' (.stateChanged on _) => if c' = c then some on else none
  | _ => none

def Hub.power? (h : Hub H) (c : CentralId) : Option Bool := (h.centrals.get? c).map Central.poweredOn

/-- Whether it says anything of power, or opens or closes a manager. -/
def Deed.isOfPower : Deed H → Bool
  | .notice (.stateChanged ..) | .call _ .openCentral | .call _ .close => true
  | .notice _ | .call .. => false

namespace Effect

/-- What is said of the power of a manager. -/
def powers (c : CentralId) (es : List (Effect H)) : List Bool :=
  (notices es).filterMap (Notice.power? c)

variable {es : List (Effect H)}

theorem powers_eq_nil (h : ∀ n ∈ notices es, (Deed.notice n : Deed H).isOfPower = false)
    (c : CentralId) : powers c es = [] := by
  rw [powers, List.filterMap_eq_nil_iff]
  intro n hn
  cases n with
  | stateChanged => cases h _ hn
  | discovered | peer => rfl

end Effect

namespace Central

/-- The manager keeps its power state, and nothing is done that could be of account to it. -/
structure KeepsPower (m m' : Central H) (es : List (Effect H)) : Prop where
  poweredOn : m'.poweredOn = m.poweredOn
  deeds : ∀ d ∈ Effect.deeds es, d.isOfPower = false

variable (answers : Answers H) (m : Central H)

theorem keepsPower_startScan (allowDuplicates : Bool) :
    m.KeepsPower (m.startScan answers allowDuplicates).state
      (m.startScan answers allowDuplicates).effects := by
  simp only [startScan]
  split
  · exact ⟨rfl, by simp⟩
  · exact ⟨rfl, by simp [call, Deed.isOfPower]⟩

theorem keepsPower_stopScan :
    m.KeepsPower (m.stopScan answers).state (m.stopScan answers).effects := by
  simp only [stopScan]
  split
  · exact ⟨rfl, by simp⟩
  · exact ⟨rfl, by simp [call, Deed.isOfPower]⟩

theorem keepsPower_forget (p : PeerId) : m.KeepsPower (m.forget p).state (m.forget p).effects := by
  simp only [forget]
  split
  · exact ⟨rfl, by simp⟩
  · split <;> exact ⟨rfl, by simp⟩

theorem poweredOn_track (p : PeerId) :
    (m.track answers p).state.poweredOn = m.poweredOn := by
  simp only [track]
  split
  · rfl
  · split <;> rfl

theorem keepsPower_withPeer (p : PeerId) {α : Type} {f : Peer H → Response H (Peer H) α}
    (hf : ∀ q, ∀ d ∈ Effect.deeds (f q).effects, ∃ k, d = .call q.central (.peer q.native k)) :
    m.KeepsPower (m.withPeer answers p f).state (m.withPeer answers p f).effects := by
  have hlookup : ∀ d ∈ Effect.deeds (m.track answers p).effects, d.isOfPower = false := by
    intro d hd
    rw [m.deeds_track answers p d hd]
    rfl
  simp only [withPeer]
  split
  · exact ⟨m.poweredOn_track answers p, hlookup⟩
  next q _ =>
    refine ⟨m.poweredOn_track answers p, fun d hd => ?_⟩
    rw [Effect.deeds_append, List.mem_append] at hd
    rcases hd with hd | hd
    · exact hlookup d hd
    · obtain ⟨k, rfl⟩ := hf q d hd
      rfl

theorem keepsPower_receive (settings : Settings) (ids : IdSource) {r : Report H}
    (hr : ∀ on message, r ≠ .stateChanged on message) :
    m.KeepsPower (m.receive settings ids r).state.1 (m.receive settings ids r).effects := by
  cases r with
  | stateChanged on message => exact absurd rfl (hr on message)
  | advertised record =>
    simp only [receive, advertised]
    split
    · exact ⟨rfl, by simp⟩
    · split
      · exact ⟨rfl, by simp [Deed.isOfPower]⟩
      · exact ⟨rfl, by simp⟩
  | peer p report =>
    simp only [receive, peerReported]
    split
    · exact ⟨rfl, by simp⟩
    next q _ =>
      refine ⟨rfl, fun d hd => ?_⟩
      obtain ⟨n, rfl⟩ := q.deeds_receive settings ids report d hd
      rfl

/-- The end of a manager says nothing of power, and closes no other. -/
theorem deeds_teardown_power {order : List PeerId} {d : Deed H}
    (hd : d ∈ Effect.deeds (m.teardown answers order)) :
    d.isOfPower = false ∨ d = .call m.id .close := by
  have hpeer (q : Peer H) : ∀ d ∈ q.closingDeeds, d.isOfPower = false := by
    intro d hd
    have hending : d ∈ q.pending.map (fun op => (.notice (q.notice op.cancelled) : Deed H)) ++
        [.notice (q.notice (.disconnected .cancelled))] → d.isOfPower = false := by
      intro hd
      rcases List.mem_append.mp hd with hd | hd
      · obtain ⟨op, -, rfl⟩ := List.mem_map.mp hd
        rfl
      · rw [List.mem_singleton.mp hd]
        rfl
    simp only [Peer.closingDeeds] at hd
    split at hd
    · cases hd
    · exact hending hd
    all_goals
      rcases List.mem_cons.mp hd with rfl | hd
      · rfl
      · exact hending hd
  rw [deeds_teardown, closingDeeds] at hd
  rcases List.mem_append.mp hd with hd | hd
  · left
    rcases List.mem_append.mp hd with hd | hd
    · split at hd
      · rw [List.mem_singleton.mp hd]
        rfl
      · cases hd
    · obtain ⟨q, -, hd⟩ := List.mem_flatMap.mp hd
      exact hpeer q d hd
  · exact .inr (List.mem_singleton.mp hd)

end Central

namespace Hub

variable {h : Hub H}

theorem power?_of_insert {h' : Hub H} {c : CentralId} {m m' : Central H}
    (hm : h.centrals.get? c = some m) (hpower : m'.poweredOn = m.poweredOn)
    (hc : h'.centrals = h.centrals.insert c m') (c' : CentralId) : h'.power? c' = h.power? c' := by
  simp only [power?, hc, Table.get?_insert]
  split
  next heq => simp [heq, hm, hpower]
  next => rfl

theorem keepsPower_withCentral (h : Hub H) (c₀ : CentralId) {α : Type}
    {f : Central H → Response H (Central H) α}
    (hf : ∀ m : Central H, m.KeepsPower (f m).state (f m).effects) :
    (∀ c, (h.withCentral c₀ f).state.power? c = h.power? c) ∧
      ∀ d ∈ Effect.deeds (h.withCentral c₀ f).effects, d.isOfPower = false := by
  rcases h.withCentral_cases c₀ f with ⟨-, hs, -, he⟩ | ⟨m, hm, hs, -, he⟩
  · rw [hs, he]
    exact ⟨fun _ => rfl, by simp⟩
  · rw [hs, he]
    exact ⟨power?_of_insert hm (hf m).poweredOn rfl, (hf m).deeds⟩

theorem deeds_destroy_power (hl : h.Labelled) (answers : Answers H) {c₀ : CentralId} {d : Deed H}
    (hd : d ∈ Effect.deeds (h.destroy answers c₀).effects) :
    d.isOfPower = false ∨ d = .call c₀ .close := by
  cases hm : h.centrals.get? c₀ with
  | none => simp [destroy, destroyIn, central, hm] at hd
  | some m =>
    rw [destroy, destroyIn_effects _ _ hm, Effect.deeds_append] at hd
    rw [← hl.central_id hm]
    exact m.deeds_teardown_power answers (by simpa using hd)

end Hub

namespace Moment

/-- What becomes of the power state of a manager in a moment, from before to after. -/
inductive Powers (t : Moment H) (c : CentralId) : Option Bool → Option Bool → Prop
  | kept (x : Option Bool) :
      (∀ on message, t.move = .report c (.stateChanged on message) → x = none) →
      Effect.powers c t.effects = [] → (c, .openCentral) ∉ Effect.calls t.effects →
      (c, .close) ∉ Effect.calls t.effects → Powers t c x x
  | reported (x on : Bool) (message : String) : t.move = .report c (.stateChanged on message) →
      Effect.powers c t.effects = [on] → Effect.calls t.effects = [] → Powers t c (some x) (some on)
  | opened (x y : Option Bool) : y = some false ∨ y = x → Effect.powers c t.effects = [] →
      Effect.calls t.effects = [(c, .openCentral)] → Powers t c x y
  | closed (x : Option Bool) : Effect.powers c t.effects = [] → Powers t c x none

variable {h : Hub H} {c : CentralId}

theorem powers_of_deeds {t : Moment H} {h' : Hub H} (ha : t.after = some h')
    (hmove : ∀ on message, t.move ≠ .report c (.stateChanged on message))
    (hkept : h'.power? c = t.hub.power? c)
    (hdeeds : ∀ d ∈ Effect.deeds t.effects, d.isOfPower = false) :
    t.Powers c (t.hub.power? c) (t.after.bind (·.power? c)) := by
  rw [ha, Option.bind_some, hkept]
  refine .kept _ (fun on message hm => absurd hm (hmove on message))
    (Effect.powers_eq_nil (fun n hn => hdeeds _ (Effect.mem_deeds_notice.mpr hn)) c)
    (fun hk => ?_) fun hk => ?_
  all_goals cases hdeeds _ (Effect.mem_deeds_call.mpr hk)

theorem powers_noting {answers : Answers H} {r : Request PeerId} {α : Type} (c₀ : CentralId)
    (p : PeerId) (f : Central H → Response H (Central H) α)
    (hr : h.request answers r =
      Hub.noting c₀ p (Hub.reply (h.withCentral c₀ f) fun _ => .done))
    (hf : ∀ m : Central H, m.KeepsPower (f m).state (f m).effects) :
    let t : Moment H := ⟨h, .request answers r⟩
    t.Powers c (h.power? c) (t.after.bind (·.power? c)) := by
  intro t
  obtain ⟨hkept, hdeeds⟩ := h.keepsPower_withCentral c₀ hf
  refine powers_of_deeds rfl nofun ?_ ?_
  · rw [hr, (Hub.noting_spec _ _ _).1]
    exact hkept c
  · have heffects : t.effects = (h.request answers r).effects := rfl
    rw [heffects, hr, Hub.deeds_noting]
    exact hdeeds

theorem powers_report (hl : h.Labelled) (c₀ : CentralId) (r : Report H) (c : CentralId) :
    let t : Moment H := ⟨h, .report c₀ r⟩
    t.Powers c (h.power? c) (t.after.bind (·.power? c)) := by
  intro t
  have hafter : t.after = some (h.receive c₀ r).state := rfl
  have heffects : t.effects = (h.receive c₀ r).effects := rfl
  cases hm : h.centrals.get? c₀ with
  | none =>
    have hreceive : h.receive c₀ r = ⟨h, [.log (.misrouted c₀ r)]⟩ := by simp [Hub.receive, hm]
    rw [hreceive] at hafter heffects
    rw [hafter, Option.bind_some]
    refine .kept _ (fun on message hmove => ?_) (by rw [heffects]; rfl) (by simp [heffects])
      (by simp [heffects])
    cases hmove
    simp [Hub.power?, hm]
  | some m =>
    have hreceive : h.receive c₀ r =
        ⟨{ h with
            centrals := h.centrals.insert c₀ (m.receive h.settings h.ids r).state.1
            ids := (m.receive h.settings h.ids r).state.2 },
          (m.receive h.settings h.ids r).effects⟩ := by simp [Hub.receive, hm]
    rw [hreceive] at hafter heffects
    by_cases hr : ∃ on message, r = .stateChanged on message
    · obtain ⟨on, message, rfl⟩ := hr
      have hcalls : Effect.calls t.effects = [] := by
        simp [heffects, Central.receive, Central.powerChanged]
      have hpowers : Effect.powers c t.effects = if c₀ = c then [on] else [] := by
        rw [heffects, Effect.powers]
        by_cases hc : c₀ = c <;>
          simp [Central.receive, Central.powerChanged, Notice.power?, hl.central_id hm, hc]
      rw [hafter, Option.bind_some]
      by_cases hc : c₀ = c
      · subst hc
        rw [if_pos rfl] at hpowers
        have hreported := Powers.reported (t := t) m.poweredOn on message rfl hpowers hcalls
        simpa [Hub.power?, hm, Table.get?_insert, Central.receive, Central.powerChanged]
          using hreported
      · rw [if_neg hc] at hpowers
        simp only [Hub.power?, Table.get?_insert, if_neg (Ne.symm hc)]
        refine .kept _ (fun on' message' hmove => ?_) hpowers (by simp [hcalls]) (by simp [hcalls])
        cases hmove
        exact absurd rfl hc
    · have hkeeps := m.keepsPower_receive h.settings h.ids (r := r)
        fun on message heq => hr ⟨on, message, heq⟩
      refine powers_of_deeds hafter (fun on message hmove => ?_)
        (Hub.power?_of_insert hm hkeeps.poweredOn rfl c) (heffects ▸ hkeeps.deeds)
      cases hmove
      exact hr ⟨on, message, rfl⟩

theorem powers_allocate (h : Hub H) (answers : Answers H) (c : CentralId) :
    let t : Moment H := ⟨h, .request answers .allocate⟩
    t.Powers c (h.power? c) (t.after.bind (·.power? c)) := by
  intro t
  have hpowers : Effect.powers c t.effects = [] := by
    simp only [t, effects, step, Hub.request, Hub.reply, Hub.allocate]
    split <;> rfl
  have hcalls : Effect.calls t.effects = [(h.next, .openCentral)] := by
    simp only [t, effects, step, Hub.request, Hub.reply, Hub.allocate]
    split <;> rfl
  have hafter : t.after.bind (·.power? c) = h.power? c ∨
      h.next = c ∧ t.after.bind (·.power? c) = some false := by
    simp only [t, after, step, Hub.request, Hub.reply, Hub.allocate, Option.bind_some]
    split
    · exact .inl rfl
    · simp only [Hub.power?, Table.get?_insert]
      split
      next hc => exact .inr ⟨hc.symm, rfl⟩
      next => exact .inl rfl
  by_cases hc : h.next = c
  · exact .opened _ _ (hafter.symm.imp_left And.right) hpowers (by rw [hcalls, hc])
  · rw [hafter.resolve_right fun h => hc h.1]
    exact .kept _ (by simp) hpowers (by simp [hcalls, Ne.symm hc]) (by simp [hcalls])

theorem powers_destroy (hl : h.Labelled) (answers : Answers H) (c₀ c : CentralId) :
    let t : Moment H := ⟨h, .request answers (.destroy c₀)⟩
    t.Powers c (h.power? c) (t.after.bind (·.power? c)) := by
  intro t
  have hdeeds : ∀ d ∈ Effect.deeds t.effects, d.isOfPower = false ∨ d = .call c₀ .close :=
    fun d hd => Hub.deeds_destroy_power hl answers hd
  have hpowers : Effect.powers c t.effects = [] := Effect.powers_eq_nil
    (fun n hn => (hdeeds _ (Effect.mem_deeds_notice.mpr hn)).resolve_right (by simp)) c
  have hafter : t.after = some (h.destroy answers c₀).state := rfl
  rw [hafter, Option.bind_some]
  by_cases hc : c = c₀
  · have hgone : (h.destroy answers c₀).state.power? c = none := by
      rw [hc, Hub.destroy, Hub.destroyIn, Hub.central]
      cases hm : h.centrals.get? c₀ with
      | none => simp [Hub.power?, hm]
      | some m => simp [Hub.power?, Table.get?_erase]
    rw [hgone]
    exact .closed _ hpowers
  · have hkept : (h.destroy answers c₀).state.power? c = h.power? c := by
      rw [Hub.power?, Hub.destroy, Hub.get?_destroyIn _ _ _ hc]
      rfl
    rw [hkept]
    refine .kept _ (by simp) hpowers (fun hk => ?_) fun hk => ?_
    · rcases hdeeds _ (Effect.mem_deeds_call.mpr hk) with hno | heq
      · cases hno
      · cases heq
    · rcases hdeeds _ (Effect.mem_deeds_call.mpr hk) with hno | heq
      · cases hno
      · cases heq
        exact hc rfl

theorem powers_shutdown (hl : h.Labelled) (answers : Answers H) (c : CentralId) :
    let t : Moment H := ⟨h, .shutdown answers⟩
    t.Powers c (h.power? c) (t.after.bind (·.power? c)) := by
  intro t
  refine .closed _ (Effect.powers_eq_nil (fun n hn => ?_) c)
  have heffects : t.effects = h.centralIds.flatMap fun c₀ => (h.destroy answers c₀).effects :=
    h.shutdown_effects answers
  rw [heffects, Effect.notices, List.filterMap_flatMap, List.mem_flatMap] at hn
  obtain ⟨c₀, -, hn⟩ := hn
  exact (Hub.deeds_destroy_power hl answers (Effect.mem_deeds_notice.mpr hn)).resolve_right (by simp)

/-- Whatever the moment, the power state of a manager meets with one of the few fates. -/
theorem powers (t : Moment H) (hl : t.hub.Labelled) (c : CentralId) :
    t.Powers c (t.hub.power? c) (t.after.bind (·.power? c)) := by
  obtain ⟨h, m⟩ := t
  cases m with
  | report c₀ r => exact powers_report hl c₀ r c
  | shutdown answers => exact powers_shutdown hl answers c
  | request answers r =>
    cases r with
    | allocate => exact powers_allocate h answers c
    | destroy c₀ => exact powers_destroy hl answers c₀ c
    | scan c₀ allowDuplicates =>
      obtain ⟨hkept, hdeeds⟩ := h.keepsPower_withCentral c₀
        fun m => m.keepsPower_startScan answers allowDuplicates
      exact powers_of_deeds rfl nofun (hkept c) hdeeds
    | stopScan c₀ =>
      obtain ⟨hkept, hdeeds⟩ := h.keepsPower_withCentral c₀
        (f := fun m => ⟨(m.stopScan answers).state, .ok (), (m.stopScan answers).effects⟩)
        fun m => m.keepsPower_stopScan answers
      exact powers_of_deeds rfl nofun (hkept c) hdeeds
    | forget c₀ p => exact powers_noting c₀ p _ rfl fun m => m.keepsPower_forget p
    | act c₀ p action =>
      exact powers_noting c₀ p _ rfl fun m =>
        m.keepsPower_withPeer answers p fun q => q.deeds_perform answers action
    | attMtu c₀ p =>
      obtain ⟨hkept, hdeeds⟩ := h.keepsPower_withCentral c₀
        (f := fun m => m.withPeer answers p fun q => q.attMtu answers)
        fun m => m.keepsPower_withPeer answers p fun q => q.deeds_attMtu answers
      exact powers_of_deeds rfl nofun (hkept c) hdeeds
    | query q => exact powers_of_deeds rfl nofun rfl (by simp [effects, step, Hub.request])

end Moment

end GattHub
