import GattHub.Proofs.Deed
import GattHub.Proofs.Link
import GattHub.Proofs.Serving

/-! The end of a manager and the end of the worker. A manager takes its peers in no particular
order; the order moves what is done about one peer, and changes nothing of it. -/

namespace GattHub

theorem Table.filterMap_get?_keys {K V : Type} [DecidableEq K] (t : Table K V) :
    t.keys.filterMap t.get? = t.values := by
  have hget : ∀ e ∈ t.entries, t.get? e.1 = some e.2 := fun e he => Table.mem_entries_iff.1 he
  rw [keys, List.filterMap_map, values, ← List.filterMap_eq_map]
  exact List.filterMap_congr hget

variable {H : Handles}

namespace Peer

/-- How the link of a peer ends when its manager goes away: an attempt or a link is called off
first; then what is pending is cancelled, oldest first, and the end is announced. -/
def closingDeeds (q : Peer H) : List (Deed H) :=
  let ending : List (Deed H) := q.pending.map (fun op => .notice (q.notice op.cancelled)) ++
    [.notice (q.notice (.disconnected .cancelled))]
  match q.state with
  | .disconnected => []
  | .disconnecting => ending
  | .connecting | .connected => .call q.central (.peer q.native .cancelConnection) :: ending

theorem deeds_cancellations (q : Peer H) :
    Effect.deeds q.cancellations = q.pending.map fun op => .notice (q.notice op.cancelled) := by
  simp [cancellations, Effect.deeds_flatMap, List.map_eq_flatMap]

theorem deeds_linkLost {q : Peer H} (hup : q.state ≠ .disconnected) (reason : Status) :
    Effect.deeds (q.linkLost reason).effects =
      q.pending.map (fun op => .notice (q.notice op.cancelled)) ++
        [.notice (q.notice (.disconnected reason))] := by
  simp [linkLost, hup, deeds_cancellations]

/-- What the host answers makes no difference, a refusal to cancel included. -/
theorem deeds_teardown (answers : Answers H) (q : Peer H) :
    Effect.deeds (q.teardown answers).effects = q.closingDeeds := by
  have hrefusal (r : Option Refusal) :
      Effect.deeds (r.toList.map fun r => (.log (.cancelRefused q.id r) : Effect H)) = [] := by
    cases r <;> rfl
  cases hs : q.state with
  | disconnected => simp [teardown, closingDeeds, hs]
  | disconnecting | connecting | connected =>
    have hup : q.state ≠ .disconnected := by simp [hs]
    simp [teardown, closingDeeds, hs, deeds_linkLost hup, hrefusal]

end Peer

namespace Central

/-- How a manager ends that takes its peers in this order: its scan stops first, the links of its
peers end one after the other, and the host closes its side last. -/
def closingDeeds (m : Central H) (peers : List (Peer H)) : List (Deed H) :=
  (if m.scan.isSome then [.call m.id .stopScan] else []) ++ peers.flatMap Peer.closingDeeds ++
    [.call m.id .close]

theorem deeds_teardown (answers : Answers H) (order : List PeerId) (m : Central H) :
    Effect.deeds (m.teardown answers order) =
      m.closingDeeds (order.filterMap m.peers.get?) := by
  simp only [teardown, closingDeeds, Effect.deeds_append, Effect.deeds_flatMap, Peer.deeds_teardown]
  cases hscan : m.scan <;> simp [stopScan, call, hscan]

/-- Each peer has its turn, and just one. -/
theorem perm_values_of_perm_keys {m : Central H} {order : List PeerId}
    (horder : order.Perm m.peers.keys) : (order.filterMap m.peers.get?).Perm m.peers.values :=
  m.peers.filterMap_get?_keys ▸ horder.filterMap m.peers.get?

end Central

namespace Hub

/-- Closing a manager takes it out, and nothing else. -/
theorem destroyIn_some (order : Central H → List PeerId) (answers : Answers H) {h : Hub H}
    {c : CentralId} {m : Central H} (hm : h.centrals.get? c = some m) :
    h.destroyIn order answers c =
      ⟨{ h with centrals := h.centrals.erase c }, .ok (),
        m.teardown answers (order m) ++ [.log (.destroyed c)]⟩ := by
  simp [destroyIn, central_of_get? hm]

theorem ascending_centralIds (h : Hub H) : h.centralIds.Pairwise (·.raw < ·.raw) := by
  have hle : h.centralIds.Pairwise fun c c' => decide (c.raw ≤ c'.raw) = true :=
    List.pairwise_mergeSort (fun _ _ _ hab hbc => by simp at *; exact UInt64.le_trans hab hbc)
      (fun a b => by simpa using UInt64.le_total a.raw b.raw) _
  -- sorted identities ascend strictly, because none comes twice
  refine hle.imp₂ (fun c c' hle hne => ?_) h.nodup_centralIds
  exact UInt64.lt_of_le_of_ne (of_decide_eq_true hle) fun heq => hne (congrArg CentralId.mk heq)

end Hub

/-- The ticket of a caller who waits for the message to be handled. -/
def Message.ticket? : Message H → Option Nat
  | .request ticket _ => some ticket
  | _ => none

namespace Turn

variable {σ : Type}

/-- A worker that goes on has a hub until it is told to stop. -/
theorem take_isSome (host : HostStack H σ) {t : Turn H σ} (hhub : t.worker.hub.isSome)
    {m : Message H} (hm : m ≠ .shutdown) : (t.take host m).worker.hub.isSome := by
  obtain ⟨h, hh⟩ := Option.isSome_iff_exists.mp hhub
  cases m with
  | start => simp [take, hh, log]
  | request ticket r => simp [take, hh, log, (advance_spec host t _).1]
  | report c r => simp [take, hh, (advance_spec host t _).1]
  | shutdown => exact absurd rfl hm

theorem foldl_take_isSome (host : HostStack H σ) (ms : List (Message H)) {t : Turn H σ}
    (hhub : t.worker.hub.isSome) (hms : .shutdown ∉ ms) :
    (ms.foldl (take host) t).worker.hub.isSome := by
  induction ms generalizing t with
  | nil => exact hhub
  | cons m ms ih =>
    rw [List.mem_cons, not_or] at hms
    exact ih (take_isSome host hhub (Ne.symm hms.1)) hms.2

theorem take_shutdown (host : HostStack H σ) {t : Turn H σ} {h : Hub H}
    (hhub : t.worker.hub = some h) : t.take host .shutdown = t.stop host h := by
  simp [take, hhub]

/-- A worker that has stopped tells the callers who still wait, and does nothing else. -/
theorem foldl_take_stopped (host : HostStack H σ) (ms : List (Message H)) {t : Turn H σ}
    (hhub : t.worker.hub = none) : ms.foldl (take host) t = t.log (ms.filterMap dismissed) := by
  induction ms generalizing t with
  | nil => simp [log]
  | cons m ms ih =>
    have hm : t.take host m = t.log (dismissed m).toList := by simp [take, hhub]
    rw [List.foldl_cons, hm, ih (t := t.log (dismissed m).toList) hhub]
    cases hd : dismissed m <;> simp [log, hd]

/-- The messages ahead of a stop are handled, then the hub is shut down; whoever is behind it is
told so. -/
theorem round_of_shutdown (host : HostStack H σ) {t : Turn H σ} (hhub : t.worker.hub.isSome)
    {pre post : List (Message H)} (hqueue : t.worker.queue = pre ++ .shutdown :: post)
    (hpre : .shutdown ∉ pre) :
    let u := pre.foldl (take host) { t with worker.queue := [] }
    ∃ h, u.worker.hub = some h ∧ t.round host = (u.stop host h).log (post.filterMap dismissed) := by
  intro u
  obtain ⟨h, hh⟩ := Option.isSome_iff_exists.mp
    (foldl_take_isSome host pre (t := { t with worker.queue := [] }) hhub hpre)
  refine ⟨h, hh, ?_⟩
  rw [round, hqueue, List.foldl_append, List.foldl_cons]
  exact (congrArg (post.foldl (take host)) (take_shutdown host hh)).trans
    (foldl_take_stopped host post rfl)

theorem effects_dismissed (ms : List (Message H)) :
    Occurrence.effects (ms.filterMap dismissed) = [] := by
  rw [Occurrence.effects, List.filterMap_filterMap, List.filterMap_eq_nil_iff]
  intro m _
  cases m <;> rfl

theorem replies_dismissed (ms : List (Message H)) :
    (ms.filterMap dismissed).filterMap Occurrence.reply? =
      (ms.filterMap Message.ticket?).map fun ticket => (ticket, .error .closed) := by
  rw [List.filterMap_filterMap, List.map_filterMap]
  congr 1
  funext m
  cases m <;> rfl

theorem stop_spec (host : HostStack H σ) (t : Turn H σ) (h : Hub H) :
    (t.stop host h).worker.hub = none ∧
      Occurrence.effects (t.stop host h).occurrences = Occurrence.effects t.occurrences ++
        (h.shutdown (host.answers t.host)).effects ++ [.log .stopped] ∧
      (t.stop host h).occurrences.filterMap Occurrence.reply? =
        t.occurrences.filterMap Occurrence.reply? := by
  refine ⟨rfl, ?_, ?_⟩
  · rw [stop, effects_log, (advance_spec host t _).2]
    rfl
  · simp [stop, log, replies_advance, Occurrence.reply?]

/-- What is put into the queue of a worker that has stopped comes to nothing. -/
theorem round_stopped (host : HostStack H σ) {t : Turn H σ} (hhub : t.worker.hub = none) :
    Occurrence.effects (t.round host).occurrences = Occurrence.effects t.occurrences ∧
      (t.round host).host = t.host := by
  rw [round, foldl_take_stopped host t.worker.queue (t := { t with worker.queue := [] }) hhub]
  exact ⟨by rw [effects_log, effects_dismissed, List.append_nil], rfl⟩

end Turn

namespace Run

variable (settings : Settings) (ms : List (Move H))

/-- What a peer awaits was accepted since its link was opened, in this order. -/
theorem pending_in_order {h : Hub H} (hr : (of settings ms).hub = some h) {c : CentralId}
    {p : PeerId} {q : Peer H} (hq : h.peer? c p = some q) (hup : q.state ≠ .disconnected) :
    ∃ ts link, (of settings ms).past = ts ++ link ∧ Link c p link ∧
      q.pending.Sublist (link.filterMap (·.queued? c p)) := by
  have hpeer : (of settings ms).hub.bind (·.peer? c p) = some q := by rw [hr]; exact hq
  obtain ⟨ts, link, hpast, hlink⟩ :=
    (linked_iff settings ms c p).mpr (hpeer ▸ Peer.engaged_some.mpr hup)
  exact ⟨ts, link, hpast, hlink, pending_sublist_queued settings ms c p hpast hlink hpeer⟩

/-- Whatever the order in which the peers of a manager are taken, closing it stops its scan first,
ends the link of each peer in one piece, and closes the host's side last. A shutdown closes all
managers in ascending order, when the messages ahead of it are handled; whoever waits behind it is
told that the worker has stopped. -/
theorem closes_in_any_order :
    (∀ h c m, (of settings ms).hub = some h → h.centrals.get? c = some m →
      (∀ (order order' : Central H → List PeerId) (answers answers' : Answers H),
        (order m).Perm m.peers.keys → (order' m).Perm m.peers.keys →
        let r := h.destroyIn order answers c
        let r' := h.destroyIn order' answers' c
        let peers := (order m).filterMap m.peers.get?
        let peers' := (order' m).filterMap m.peers.get?
        r.result = .ok () ∧ r.state = { h with centrals := h.centrals.erase c } ∧
          Effect.deeds r.effects = m.closingDeeds peers ∧
          Effect.deeds r'.effects = m.closingDeeds peers' ∧
          peers.Perm m.peers.values ∧ peers.Perm peers') ∧
      m.id = c ∧
      (∀ op : Pending, op.cancelled.status = .cancelled ∧
        op.cancelled.operation? = some op.operation) ∧
      ∀ p q, m.peers.get? p = some q → q.central = c ∧ q.id = p ∧
        (q.state ≠ .disconnected → ∃ ts link, (of settings ms).past = ts ++ link ∧ Link c p link ∧
          q.pending.Sublist (link.filterMap (·.queued? c p)))) ∧
    (∀ h, (of settings ms).hub = some h →
      h.centralIds.Pairwise (·.raw < ·.raw) ∧
      (∀ c, c ∈ h.centralIds ↔ (h.centrals.get? c).isSome) ∧
      ∀ (order : Central H → List PeerId) (answers : Answers H),
        (h.shutdownIn order answers).effects =
          h.centralIds.flatMap fun c => (h.destroyIn order answers c).effects) ∧
    ∀ (σ : Type) (host : HostStack H σ) (t : Turn H σ) (pre post : List (Message H)),
      Follows (of settings ms) t → t.worker.hub.isSome →
      t.worker.queue = pre ++ .shutdown :: post → .shutdown ∉ pre →
      let u := pre.foldl (Turn.take host) { t with worker.queue := [] }
      let v := t.round host
      ∃ ms' h, (of settings ms').hub = some h ∧ u.worker.hub = some h ∧ v.worker.hub = none ∧
        v.host = (u.take host .shutdown).host ∧
        Occurrence.effects v.occurrences = Occurrence.effects u.occurrences ++
          (h.shutdown (host.answers u.host)).effects ++ [.log .stopped] ∧
        v.occurrences.filterMap Occurrence.reply? = u.occurrences.filterMap Occurrence.reply? ++
          (post.filterMap Message.ticket?).map (fun ticket => (ticket, .error .closed)) ∧
        Occurrence.effects (v.round host).occurrences = Occurrence.effects v.occurrences ∧
        (v.round host).host = v.host := by
  refine ⟨fun h c m hr hm => ?_, fun h hr => ?_, ?_⟩
  · have hl := (labelled settings ms).2 h hr
    have hdeeds (order : Central H → List PeerId) (answers : Answers H) :
        Effect.deeds (h.destroyIn order answers c).effects =
          m.closingDeeds ((order m).filterMap m.peers.get?) := by
      simp [Hub.destroyIn_some order answers hm, Central.deeds_teardown]
    refine ⟨fun order order' answers answers' horder horder' => ?_, hl.central_id hm,
      fun op => ⟨op.status_cancelled, op.operation?_cancelled⟩, fun p q hq => ?_⟩
    · have hpeers := Central.perm_values_of_perm_keys horder
      refine ⟨?_, ?_, hdeeds order answers, hdeeds order' answers', hpeers,
        hpeers.trans (Central.perm_values_of_perm_keys horder').symm⟩ <;>
      rw [Hub.destroyIn_some order answers hm]
    · have hpeer : h.peer? c p = some q := (Hub.peer?_of_get? hm p).trans hq
      exact ⟨hl.peer_central hpeer, hl.peer_id hpeer, pending_in_order settings ms hr hpeer⟩
  · exact ⟨h.ascending_centralIds, fun _ => Hub.mem_centralIds,
      fun order answers => h.shutdownIn_effects order answers h.nodup_centralIds⟩
  -- the messages ahead of the stop prolong the run, so the hub that is shut down is one of a run
  · intro σ host t pre post hf hhub hqueue hpre u v
    obtain ⟨h, hu, hround⟩ := t.round_of_shutdown host hhub hqueue hpre
    obtain ⟨moves, hfollows⟩ := Follows.foldl_take (r := of settings ms) host pre
      (t := { t with worker.queue := [] }) ⟨hf.hub_eq, hf.calls_eq, hf.notices_eq⟩
    obtain ⟨hnone, heffects, hreplies⟩ := u.stop_spec host h
    have hv : v = (u.stop host h).log (post.filterMap Turn.dismissed) := hround
    have hstopped := Turn.round_stopped host (t := v) (by rw [hv]; exact hnone)
    refine ⟨ms ++ moves, h, ?_, hu, by rw [hv]; exact hnone, ?_, ?_, ?_, hstopped⟩
    · rw [of, List.foldl_append]
      exact hfollows.hub_eq.symm.trans hu
    · rw [hv, Turn.take_shutdown host hu]
      rfl
    · rw [hv, Turn.effects_log, Turn.effects_dismissed, List.append_nil, heffects]
    · rw [hv, Turn.log, List.filterMap_append, Turn.replies_dismissed, hreplies]

/-- A manager scans; one of its peers is on its way, and the other is connected. -/
def busyMoves : List (Move .numbers) :=
  let p : PeerId := ⟨.ofNat 1⟩
  [.request .agreeing .allocate, .request .agreeing (.scan ⟨1⟩ false),
    .request .agreeing (.act ⟨1⟩ default .connect), .request .agreeing (.act ⟨1⟩ default .readRssi),
    .request .agreeing (.act ⟨1⟩ p .connect), .report ⟨1⟩ (.peer p (.connected .ok)),
    .request .agreeing (.act ⟨1⟩ p (.discoverServices [])),
    .request .agreeing (.act ⟨1⟩ p .readRssi)]

def busy : Hub .numbers := (of .default busyMoves).hub.getD (.new .default)

def busyCentral : Central .numbers := (busy.centrals.get? ⟨1⟩).getD (.new ⟨1⟩)

/-- A worker that has to stop before it comes to the second of two requests. -/
def stopping : Turn .numbers Unit :=
  ⟨⟨some (.new .default), [.request 1 .allocate, .shutdown, .request 2 .allocate]⟩, (), []⟩

def agreeingHost : HostStack .numbers Unit := ⟨fun _ => .agreeing, fun _ _ _ _ => ⟨(), [], []⟩⟩

/-- The peers are taken the other way round, by a host that turns every call down. -/
theorem closes_in_any_order_reversed :
    let backwards := fun m : Central .numbers => m.peers.keys.reverse
    let p : PeerId := ⟨.ofNat 1⟩
    (backwards busyCentral).Perm busyCentral.peers.keys ∧
      Effect.deeds (busy.destroyIn backwards refusing ⟨1⟩).effects =
        [.call ⟨1⟩ .stopScan, .call ⟨1⟩ (.peer 0 .cancelConnection),
          .notice (.peer ⟨1⟩ p (.servicesDiscovered .cancelled [])),
          .notice (.peer ⟨1⟩ p (.rssiRead .cancelled .unknown)),
          .notice (.peer ⟨1⟩ p (.disconnected .cancelled)),
          .call ⟨1⟩ (.peer 0 .cancelConnection),
          .notice (.peer ⟨1⟩ default (.rssiRead .cancelled .unknown)),
          .notice (.peer ⟨1⟩ default (.disconnected .cancelled)), .call ⟨1⟩ .close] ∧
      Follows (of .default []) stopping ∧
      (stopping.round agreeingHost).occurrences.filterMap Occurrence.reply? =
        [(1, .ok (.allocated ⟨1⟩)), (2, .error .closed)] := by
  intro backwards p
  have horder : (backwards busyCentral).Perm busyCentral.peers.keys := List.reverse_perm _
  have hfollows : Follows (of .default []) stopping := ⟨rfl, rfl, rfl⟩
  obtain ⟨hclosed, -⟩ := closes_in_any_order .default busyMoves
  obtain ⟨-, -, hdeeds, -⟩ :=
    (hclosed busy ⟨1⟩ busyCentral rfl rfl).1 backwards Hub.trackingOrder refusing refusing horder
      (.refl _)
  obtain ⟨_, _, -, -, -, -, -, hreplies, -⟩ :=
    (closes_in_any_order .default []).2.2 Unit agreeingHost stopping [.request 1 .allocate]
      [.request 2 .allocate] hfollows rfl rfl (by simp)
  exact ⟨horder, hdeeds.trans (by decide), hfollows, hreplies⟩

end Run

end GattHub
