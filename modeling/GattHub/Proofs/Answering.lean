import GattHub.Proofs.Traffic
import GattHub.Proofs.Isolation

/-! What a radio owes to a request of a peer: one operation of the platform, and once the platform is
done with that, one report, which says whether it has worked. -/

namespace GattHub.Radio

/-- The operation of the platform that a call to a device asks for. The calls that ask for none are
answered from what is known. -/
def asked? (d : DeviceId) : PeerCall handles → Option Operation
  | .connect => some (.connect d)
  | .cancelConnection => some (.disconnect d)
  | .discoverServices _ => some (.discoverServices d)
  | .readCharacteristic c => some (.read d c)
  | .writeCharacteristic c value noResponse => some (.write d c value !noResponse)
  | .readDescriptor r => some (.readDescriptor d r)
  | .writeDescriptor r value => some (.writeDescriptor d r value)
  | .subscribe c => some (.subscribe d c)
  | .unsubscribe c => some (.unsubscribe d c)
  | .readRssi => some (.properties d)
  | .attMtu | .discoverCharacteristics .. | .discoverDescriptors _ => none

/-- How a call has to be answered when its operation has worked, or has not. The status tells which,
and a failure has nothing to show. A link that is given up is gone either way, and a write without
response is not answered. -/
inductive Completes : PeerCall handles → Bool → Option (PeerReport handles) → Prop
  | connected {worked : Bool} {status : Status} : (status = .ok ↔ worked = true) →
      Completes .connect worked (some (.connected status))
  | disconnected (worked : Bool) : Completes .cancelConnection worked (some (.disconnected .ok))
  | services {filter : List Uuid} {worked : Bool} {status : Status}
      {found : List (Gatt.Found Service)} :
      (status = .ok ↔ worked = true) → (worked = false → found = []) →
      Completes (.discoverServices filter) worked (some (.servicesDiscovered status found))
  | characteristics (s : Service) (filter : List Uuid)
      (found : List (Gatt.FoundCharacteristic Characteristic)) :
      Completes (.discoverCharacteristics s filter) true
        (some (.characteristicsDiscovered .ok s found))
  | descriptors (c : Characteristic) (found : List (Gatt.Found Descriptor)) :
      Completes (.discoverDescriptors c) true (some (.descriptorsDiscovered .ok c found))
  | characteristicRead {c : Characteristic} {worked : Bool} {status : Status} {value : Octets} :
      (status = .ok ↔ worked = true) → (worked = false → value = []) →
      Completes (.readCharacteristic c) worked (some (.characteristicRead status c.uuid value))
  | characteristicWritten {c : Characteristic} {value : Octets} {worked : Bool} {status : Status} :
      (status = .ok ↔ worked = true) →
      Completes (.writeCharacteristic c value false) worked
        (some (.characteristicWritten status c.uuid))
  | unanswered (c : Characteristic) (value : Octets) (worked : Bool) :
      Completes (.writeCharacteristic c value true) worked none
  | descriptorRead {r : Descriptor} {worked : Bool} {status : Status} {value : Octets} :
      (status = .ok ↔ worked = true) → (worked = false → value = []) →
      Completes (.readDescriptor r) worked (some (.descriptorRead status r.uuid value))
  | descriptorWritten {r : Descriptor} {value : Octets} {worked : Bool} {status : Status} :
      (status = .ok ↔ worked = true) →
      Completes (.writeDescriptor r value) worked (some (.descriptorWritten status r.uuid))
  | subscribed {c : Characteristic} {worked : Bool} {status : Status} :
      (status = .ok ↔ worked = true) →
      Completes (.subscribe c) worked (some (.notificationStateChanged status c.uuid worked))
  | unsubscribed {c : Characteristic} {worked : Bool} {status : Status} :
      (status = .ok ↔ worked = true) →
      Completes (.unsubscribe c) worked (some (.notificationStateChanged status c.uuid false))
  | rssi {worked : Bool} {status : Status} {level : Level} :
      (status = .ok ↔ worked = true) → (worked = false → level = .unknown) →
      Completes .readRssi worked (some (.rssiRead status level))

theorem PlatformError.status_ne_ok (e : PlatformError) : e.status ≠ .ok := by
  cases e <;> simp only [status] <;> decide

theorem PlatformError.statusOf_eq_ok_iff {α : Type} (r : Except PlatformError α) :
    statusOf r = .ok ↔ r.isOk = true := by
  cases r with
  | ok a => simp [statusOf, Except.isOk, Except.toBool]
  | error e => simpa [statusOf, Except.isOk, Except.toBool] using e.status_ne_ok

theorem valueOr_of_not_isOk {α : Type} (a : α) {r : Except PlatformError α} (h : r.isOk = false) :
    valueOr a r = a := by
  cases r with
  | ok b => cases h
  | error e => rfl

/-- The report of a job answers the call that has started it. -/
theorem Job.completes {k : PeerCall handles} {job : Job} (h : Stack.job? k = some job)
    (d : DeviceId) (r : Except PlatformError (job.operation d).Result) :
    asked? d k = some (job.operation d) ∧ Completes k r.isOk (job.report d r) := by
  have hstatus := PlatformError.statusOf_eq_ok_iff r
  cases k with
  | connect | attMtu | discoverCharacteristics | discoverDescriptors => cases h
  | cancelConnection =>
    cases h
    exact ⟨rfl, .disconnected _⟩
  | discoverServices filter =>
    cases h
    refine ⟨rfl, .services hstatus fun hfailed => ?_⟩
    rw [valueOr_of_not_isOk [] hfailed]
    rfl
  | readCharacteristic c =>
    cases h
    exact ⟨rfl, .characteristicRead hstatus (valueOr_of_not_isOk [])⟩
  | writeCharacteristic c value noResponse =>
    cases h
    refine ⟨rfl, ?_⟩
    cases noResponse with
    | true => exact .unanswered c value _
    | false => exact .characteristicWritten hstatus
  | readDescriptor descriptor =>
    cases h
    exact ⟨rfl, .descriptorRead hstatus (valueOr_of_not_isOk [])⟩
  | writeDescriptor descriptor value =>
    cases h
    exact ⟨rfl, .descriptorWritten hstatus⟩
  | subscribe c =>
    cases h
    exact ⟨rfl, .subscribed hstatus⟩
  | unsubscribe c =>
    cases h
    exact ⟨rfl, .unsubscribed hstatus⟩
  | readRssi =>
    cases h
    refine ⟨rfl, .rssi hstatus fun hfailed => ?_⟩
    rw [valueOr_of_not_isOk none hfailed]
    rfl

/-- What is known at once answers the call that asks for it. -/
theorem report?_completes {d : DeviceId} {k : PeerCall handles} (h : asked? d k = none)
    (hmtu : k ≠ .attMtu) : ∃ r, Stack.report? k = some r ∧ Completes k true (some r) := by
  cases k with
  | attMtu => exact absurd rfl hmtu
  | discoverCharacteristics s filter => exact ⟨_, rfl, .characteristics s filter _⟩
  | discoverDescriptors c => exact ⟨_, rfl, .descriptors c _⟩
  | _ => cases h

/-- A task that is to do the operation of a call, or has begun it. -/
inductive Task.Undertakes (c : CentralId) (d : DeviceId) : PeerCall handles → Task → Prop
  | connect (l : LinkId) (begun : Bool) :
      Undertakes c d .connect (.connect ⟨c, d.peer, d, l⟩ begun)
  | request {k : PeerCall handles} {job : Job} (begun : Bool) : Stack.job? k = some job →
      Undertakes c d k (.request c d.peer d job begun)

/-- A task that passes the notifications of a link on, or is about to. -/
inductive Task.Follows (c : CentralId) (p : PeerId) : Task → Prop
  | subscribe {a : Attempt} : a.central = c → a.peer = p → Follows c p (.subscribe a)
  | forwarding {a : Attempt} (inbox : Inbox Notification) : a.central = c → a.peer = p →
      Follows c p (.forwarding a inbox)

/-- An operation is on the air. -/
def Task.begun : Task → Bool
  | .switchScan _ begun | .request _ _ _ _ begun | .connect _ begun => begun
  | _ => false

namespace Instant

/-- The operation of a task that the platform is done with, and whether it has worked. -/
def resolved? (o : Instant) (i : Nat) : Option (Operation × Bool) :=
  if o.step? = some i then
    (o.scene.host.tasks.get? i).bind fun t =>
      if t.begun && !o.scene.host.waits i t then
        t.operation?.map fun operation =>
          (operation, (o.scene.host.platform.perform operation).isOk)
      else none
  else none

def postedBy (o : Instant) (i : Nat) : List (Message handles) :=
  if o.step? = some i then o.posted else []

/-- What comes of posting a report, if there is one. Nothing does once the worker has stopped. -/
def posts (o : Instant) (c : CentralId) (p : PeerId) (r : Option (PeerReport handles)) :
    List (Message handles) :=
  if o.scene.worker.running then r.toList.map fun r => .report c (.peer p r) else []

end Instant

namespace Scene

variable {s : Scene} {c : CentralId} {d : DeviceId} {k : PeerCall handles} {i : Nat} {t : Task}

theorem posts_eq (x : Act) (r : Option (PeerReport handles)) (p : PeerId) :
    (if s.worker.running then
        (r.map fun report => (c, Report.peer p report)).toList.map fun e => .report e.1 e.2
      else []) = (Instant.mk s x).posts c p r := by
  cases r <;> rfl

/-- A task that has a request to do waits only while the operation is held up. -/
theorem stepTask_undertaking (ht : s.host.tasks.get? i = some t) (h : t.Undertakes c d k)
    (hx : Happening.step i ≠ .work) :
    s.stepTask i = (if i ∈ s.host.suspended then s else s.go i t) ∧
      (Instant.mk s (.happen (.step i) hx)).resolved? i =
        if t.begun ∧ i ∉ s.host.suspended then
          t.operation?.map fun operation => (operation, (s.host.platform.perform operation).isOk)
        else none := by
  have hwaits : s.host.waits i t = decide (i ∈ s.host.suspended) := by
    cases h <;> simp [Stack.waits]
  exact ⟨by simp [stepTask, ht, hwaits], by simp [Instant.resolved?, Instant.step?, ht, hwaits]⟩

/-- A step that begins an operation posts nothing yet. -/
theorem begin_step (ht : s.host.tasks.get? i = some t) (hx : Happening.step i ≠ .work)
    {operation : Operation} {next : Task} (h : s.stepTask i = s.begin i operation next) :
    (Instant.mk s (.happen (.step i) hx)).posted = [] ∧
      (Instant.mk s (.happen (.step i) hx)).after.host.tasks.get? i = some next := by
  have hprogress := s.begin_progress ht operation next
  rw [← h] at hprogress
  refine ⟨?_, (hprogress.tasks i).trans (if_pos rfl)⟩
  rw [posted_step hx hprogress]
  simp

/-- A step of a task that has a request to do. Unless the operation is held up, the task begins it or
the platform is done with it, and then the outcome is reported. -/
theorem undertakes_step (ht : s.host.tasks.get? i = some t) (h : t.Undertakes c d k)
    (hx : Happening.step i ≠ .work) :
    let o : Instant := ⟨s, .happen (.step i) hx⟩
    (o.resolved? i = none ∧ o.posted = [] ∧
        ∃ t', o.after.host.tasks.get? i = some t' ∧ t'.Undertakes c d k ∧
          (i ∉ s.host.suspended → t.begun = false ∧ t'.begun = true)) ∨
      ∃ operation worked r, asked? d k = some operation ∧
        o.resolved? i = some (operation, worked) ∧ Completes k worked r ∧
        o.posted = o.posts c d.peer r ∧
        ∀ t', o.after.host.tasks.get? i = some t' → k = .connect ∧ t'.Follows c d.peer := by
  intro o
  obtain ⟨hstep, hresolved⟩ := stepTask_undertaking ht h hx
  by_cases hheld : i ∈ s.host.suspended
  · rw [if_pos hheld] at hstep
    rw [if_neg fun hgoes => hgoes.2 hheld] at hresolved
    have hafter : o.after = s := hstep
    exact .inl ⟨hresolved, posted_of_same hx hstep, t, by rw [hafter, ht], h,
      fun hfree => absurd hheld hfree⟩
  rw [if_neg hheld] at hstep
  cases h with
  | connect l begun =>
    cases begun with
    | false =>
      have hbegins : s.stepTask i =
        s.begin i (.connect d) (.connect ⟨c, d.peer, d, l⟩ true) := hstep
      obtain ⟨hquiet, hnext⟩ := begin_step ht hx hbegins
      exact .inl ⟨hresolved, hquiet, _, hnext, .connect l true, fun _ => ⟨rfl, rfl⟩⟩
    | true =>
      have hprogress := s.connected_progress ht
      have hconnected : s.stepTask i = s.connected i ⟨c, d.peer, d, l⟩ := hstep
      rw [← hconnected] at hprogress
      rw [if_pos ⟨rfl, hheld⟩] at hresolved
      refine .inr ⟨.connect d, _, _, rfl, hresolved,
        .connected (PlatformError.statusOf_eq_ok_iff _), posted_step hx hprogress, fun t' ht' => ?_⟩
      have hnext : o.after.host.tasks.get? i = _ := hprogress.tasks i
      rw [ht', if_pos rfl] at hnext
      split at hnext <;> cases hnext
      exact ⟨rfl, .subscribe rfl rfl⟩
  | @request k job begun hjob =>
    cases begun with
    | false =>
      have hbegins : s.stepTask i =
        s.begin i (job.operation d) (.request c d.peer d job true) := hstep
      obtain ⟨hquiet, hnext⟩ := begin_step ht hx hbegins
      exact .inl ⟨hresolved, hquiet, _, hnext, .request true hjob, fun _ => ⟨rfl, rfl⟩⟩
    | true =>
      have hprogress := s.answered_progress ht
      have hanswered : s.stepTask i = s.answered i c d.peer d job := hstep
      rw [← hanswered] at hprogress
      rw [if_pos ⟨rfl, hheld⟩] at hresolved
      obtain ⟨hasked, hcompletes⟩ := Job.completes hjob d (s.host.platform.perform (job.operation d))
      refine .inr ⟨job.operation d, _, _, hasked, hresolved, hcompletes,
        (posted_step hx hprogress).trans (posts_eq _ _ _), fun t' ht' => ?_⟩
      have hnext : o.after.host.tasks.get? i = _ := hprogress.tasks i
      rw [ht', if_pos rfl] at hnext
      cases hnext

/-- A step of a task that follows a link. -/
theorem follows_step {p : PeerId} (ht : s.host.tasks.get? i = some t) (h : t.Follows c p)
    (hx : Happening.step i ≠ .work) :
    let o : Instant := ⟨s, .happen (.step i) hx⟩
    o.resolved? i = none ∧
      (∀ m ∈ o.posted, ∃ n : Notification,
        m = .report c (.peer p (.characteristicRead .ok n.uuid n.value))) ∧
      ∀ t', o.after.host.tasks.get? i = some t' → t'.Follows c p := by
  intro o
  have hidle : t.begun = false := by cases h <;> rfl
  refine ⟨by simp [o, Instant.resolved?, ht, hidle], ?_⟩
  rcases s.stepTask_cases i with hsame | ⟨task, next, post, closes, hi, hgoes, hprogress⟩
  · have hafter : o.after = s := hsame
    rw [show o.posted = [] from posted_of_same hx hsame, hafter]
    exact ⟨List.forall_mem_nil _, fun t' ht' => Option.some.inj (ht.symm.trans ht') ▸ h⟩
  have htask : t = task := Option.some.inj (ht.symm.trans hi)
  subst htask
  have hnext : o.after.host.tasks.get? i = next := (hprogress.tasks i).trans (if_pos rfl)
  rw [posted_step hx hprogress, hnext]
  cases h with
  | subscribe hc hp =>
    cases hgoes with
    | subscribes =>
      refine ⟨by simp, fun t' ht' => ?_⟩
      cases ht'
      exact .forwarding _ hc hp
    | cannotSubscribe => exact ⟨by simp, by simp⟩
  | forwarding inbox hc hp =>
    cases hgoes with
    | forwards a _ rest uuid value =>
      refine ⟨fun m hm => ?_, fun t' ht' => ?_⟩
      · split at hm
        · exact ⟨⟨uuid, value⟩, by rw [← hc, ← hp]; simpa using hm⟩
        · cases hm
      · cases ht'
        exact .forwarding _ hc hp
    | stopsForwarding => exact ⟨by simp, by simp⟩

end Scene

/-- What has come of a request by now. The task that does it still has its operation to do and has
posted nothing; or the platform is done with the operation, and with that the answer was posted. What
the task may post after that are the notifications of a link. -/
inductive Answers (c : CentralId) (d : DeviceId) (k : PeerCall handles) (i : Nat)
    (operation : Operation) (os : List Instant) (s : Scene) : Prop
  | awaited {t : Task} : (∀ o ∈ os, o.resolved? i = none ∧ o.postedBy i = []) →
      s.host.tasks.get? i = some t → t.Undertakes c d k → Answers c d k i operation os s
  | completed {us vs : List Instant} {o : Instant} {worked : Bool}
      {r : Option (PeerReport handles)} : os = us ++ o :: vs →
      (∀ u ∈ us, u.resolved? i = none ∧ u.postedBy i = []) →
      o.resolved? i = some (operation, worked) → Completes k worked r →
      o.postedBy i = o.posts c d.peer r →
      (∀ v ∈ vs, v.resolved? i = none ∧ ∀ m ∈ v.postedBy i, k = .connect ∧
        ∃ n : Notification, m = .report c (.peer d.peer (.characteristicRead .ok n.uuid n.value))) →
      (∀ t, s.host.tasks.get? i = some t → k = .connect ∧ t.Follows c d.peer) →
      Answers c d k i operation os s

namespace Answers

variable {s : Scene} {c : CentralId} {d : DeviceId} {k : PeerCall handles} {i : Nat}
  {operation : Operation} {os : List Instant}

theorem brings_undertakes {y : Happening} {t t' : Task} (h : t.Undertakes c d k) :
    y.brings t ≠ some t' := by
  cases h <;> cases y <;> simp [Happening.brings, Stack.inListener, Stack.inForwarder]

theorem brings_follows {y : Happening} {p : PeerId} {t t' : Task} (h : t.Follows c p)
    (hbrings : y.brings t = some t') : t'.Follows c p := by
  rcases Happening.brings_cases hbrings with ⟨hnone, -⟩ | ⟨a, inbox, inbox', rfl, rfl, -⟩
  · cases h <;> cases hnone
  · cases h with
    | forwarding _ hc hp => exact .forwarding _ hc hp

/-- The task that does a request takes a step. -/
theorem step_act (h : Answers c d k i operation os s) (hasked : asked? d k = some operation)
    (hx : Happening.step i ≠ .work) :
    Answers c d k i operation (os ++ [⟨s, .happen (.step i) hx⟩])
      (s.act (.happen (.step i) hx)) := by
  set o : Instant := ⟨s, .happen (.step i) hx⟩ with ho
  have hown : o.postedBy i = o.posted := by simp [ho, Instant.postedBy, Instant.step?]
  cases h with
  | awaited hidle ht hundertakes =>
    rcases Scene.undertakes_step ht hundertakes hx with
      ⟨hnone, hquiet, t', ht', hundertakes', -⟩ |
        ⟨operation', worked, r, hop, hdone, hcompletes, hanswer, hafter⟩
    · refine .awaited (List.forall_mem_append.mpr ⟨hidle, ?_⟩) ht' hundertakes'
      exact List.forall_mem_singleton.mpr ⟨hnone, hown.trans hquiet⟩
    · obtain rfl : operation' = operation := Option.some.inj (hop.symm.trans hasked)
      exact .completed rfl hidle hdone hcompletes (hown.trans hanswer) (List.forall_mem_nil _)
        hafter
  | @completed us vs u worked r hos hidle hdone hcompletes hanswer hlater hafter =>
    subst hos
    -- By now the task is gone, or it follows the link that it has made.
    obtain ⟨hquiet, hafter'⟩ : (o.resolved? i = none ∧ ∀ m ∈ o.posted, k = .connect ∧
          ∃ n : Notification,
            m = .report c (.peer d.peer (.characteristicRead .ok n.uuid n.value))) ∧
        ∀ t', o.after.host.tasks.get? i = some t' → k = .connect ∧ t'.Follows c d.peer := by
      cases ht : s.host.tasks.get? i with
      | none =>
        have hsame : s.stepTask i = s := by simp [Scene.stepTask, ht]
        have hkept : o.after = s := hsame
        rw [show o.posted = [] from Scene.posted_of_same hx hsame, hkept]
        exact ⟨⟨by simp [ho, Instant.resolved?, ht], List.forall_mem_nil _⟩, hafter⟩
      | some t =>
        obtain ⟨hk, hfollows⟩ := hafter t ht
        obtain ⟨hnone, hposts, hnext⟩ := Scene.follows_step ht hfollows hx
        exact ⟨⟨hnone, fun m hm => ⟨hk, hposts m hm⟩⟩, fun t' ht' => ⟨hk, hnext t' ht'⟩⟩
    rw [← hown] at hquiet
    exact .completed (List.append_assoc us (u :: vs) [o]) hidle hdone hcompletes hanswer
      (List.forall_mem_append.mpr ⟨hlater, List.forall_mem_singleton.mpr hquiet⟩) hafter'

/-- Something else happens. -/
theorem act_of_not_step (h : Answers c d k i operation os s) (hs : s.host.Sound)
    (hi : i < s.host.nextTask) {x : Act} (hstep : (Instant.mk s x).step? ≠ some i) :
    Answers c d k i operation (os ++ [⟨s, x⟩]) (s.act x) := by
  have hnone : (Instant.mk s x).resolved? i = none := if_neg hstep
  have hquiet : (Instant.mk s x).postedBy i = [] := if_neg hstep
  have htask := Scene.get?_act_of_not_step hs hi hstep
  cases h with
  | @awaited t hidle ht hundertakes =>
    refine .awaited (List.forall_mem_append.mpr
      ⟨hidle, List.forall_mem_singleton.mpr ⟨hnone, hquiet⟩⟩) (t := t) ?_ hundertakes
    rcases htask with hsame | ⟨y, hy, t₀, t', -, ht₀, hbrings, -⟩
    · rw [hsame, ht]
    · obtain rfl : t₀ = t := Option.some.inj (ht₀.symm.trans ht)
      exact absurd hbrings (brings_undertakes hundertakes)
  | @completed us vs u worked r hos hidle hdone hcompletes hanswer hlater hafter =>
    subst hos
    refine .completed (List.append_assoc us (u :: vs) [⟨s, x⟩]) hidle hdone hcompletes hanswer
      (List.forall_mem_append.mpr ⟨hlater, List.forall_mem_singleton.mpr ⟨hnone, ?_⟩⟩)
      fun t' ht' => ?_
    · rw [hquiet]
      exact List.forall_mem_nil _
    · rcases htask with hsame | ⟨y, hy, t₀, t₁, -, ht₀, hbrings, ht₁⟩
      · exact hafter t' (hsame.symm.trans ht')
      · obtain rfl : t₁ = t' := Option.some.inj (ht₁.symm.trans ht')
        obtain ⟨hk, hfollows⟩ := hafter t₀ ht₀
        exact ⟨hk, brings_follows hfollows hbrings⟩

end Answers

namespace Scene

variable {s : Scene} {c : CentralId} {d : DeviceId} {k : PeerCall handles} {operation : Operation}

/-- A call that asks for an operation starts a task to do it. -/
theorem undertaken (hs : s.host.Sound) (hasked : asked? d k = some operation) :
    ∃ t, (s.act (.call c d k)).host.tasks.get? s.host.nextTask = some t ∧ t.Undertakes c d k := by
  have htask := (called_call hs c d k).tasks s.host.nextTask
  rw [if_pos rfl] at htask
  rw [htask]
  cases k with
  | connect => exact ⟨_, rfl, .connect _ false⟩
  | attMtu | discoverCharacteristics | discoverDescriptors => cases hasked
  | _ => exact ⟨_, rfl, .request false rfl⟩

theorem nextTask_lt_call (hs : s.host.Sound) (hasked : asked? d k = some operation) :
    s.host.nextTask < (s.act (.call c d k)).host.nextTask := by
  obtain ⟨t, ht, -⟩ := undertaken (c := c) hs hasked
  exact (sound_act hs _).lt_nextTask ht

theorem report?_of_asked (hasked : asked? d k = some operation) : Stack.report? k = none := by
  cases k <;> first | rfl | cases hasked

theorem answers_actAll (hs : s.host.Sound) (hasked : asked? d k = some operation)
    (xs : List Act) :
    let called := s.act (.call c d k)
    Answers c d k s.host.nextTask operation (called.instants xs) (called.actAll xs) := by
  intro called
  have hcalled : called.host.Sound := sound_act hs _
  induction xs using List.reverseRecOn with
  | nil =>
    obtain ⟨t, ht, hundertakes⟩ := undertaken (c := c) hs hasked
    exact .awaited (List.forall_mem_nil _) ht hundertakes
  | append_singleton xs x ih =>
    have hlt : s.host.nextTask < (called.actAll xs).host.nextTask :=
      Nat.lt_of_lt_of_le (nextTask_lt_call hs hasked) (nextTask_le_actAll hcalled xs)
    rw [instants_append_singleton, actAll_append_singleton]
    by_cases hstep : (Instant.mk (called.actAll xs) x).step? = some s.host.nextTask
    · obtain ⟨hx, rfl⟩ := eq_step_of_step? hstep
      exact ih.step_act hasked hx
    · exact ih.act_of_not_step (sound_actAll_of hcalled xs) hlt hstep

/-- Every request of a peer that asks the platform for an operation is answered once, by a report to the
manager that has made it: when the platform is done with the operation, and to the effect that it has
worked or not. A request of what is known is answered at once. -/
theorem answered_once (settings : Settings) (platform : Platform) (xs : List Act) (c : CentralId)
    (d : DeviceId) (k : PeerCall handles) (ys : List Act) :
    let s := (start settings platform).actAll xs
    let call : Instant := ⟨s, .call c d k⟩
    let last := call.after.actAll ys
    (∀ operation, asked? d k = some operation → call.posted = [] ∧
      Answers c d k s.host.nextTask operation (call.after.instants ys) last) ∧
    (asked? d k = none → k ≠ .attMtu → call.after.host.tasks = s.host.tasks ∧
      ∃ r, Completes k true (some r) ∧ call.posted = call.posts c d.peer (some r)) ∧
    ∀ t hx, last.host.tasks.get? s.host.nextTask = some t → t.Undertakes c d k →
      s.host.nextTask ∉ last.host.suspended →
      let next : Instant := ⟨last, .happen (.step s.host.nextTask) hx⟩
      next.resolved? s.host.nextTask ≠ none ∨ t.begun = false ∧
        ∃ t', next.after.host.tasks.get? s.host.nextTask = some t' ∧ t'.Undertakes c d k ∧
          t'.begun = true := by
  intro s call last
  have hs : s.host.Sound := sound_actAll settings platform xs
  have hposted : call.posted = call.posts c d.peer (Stack.report? k) := posted_call s c d k
  refine ⟨fun operation hasked => ⟨?_, answers_actAll hs hasked ys⟩, fun hknown hmtu => ?_,
    fun t hx ht hundertakes hfree => ?_⟩
  · rw [hposted, report?_of_asked hasked]
    simp [Instant.posts]
  · obtain ⟨r, hr, hcompletes⟩ := report?_completes hknown hmtu
    rw [hr] at hposted
    refine ⟨?_, r, hcompletes, hposted⟩
    cases k with
    | attMtu | discoverCharacteristics | discoverDescriptors => rfl
    | _ => cases hknown
  · rcases undertakes_step ht hundertakes hx with
      ⟨-, -, t', ht', hundertakes', hbegins⟩ | ⟨operation, worked, r, -, hdone, -⟩
    · obtain ⟨hfirst, hbegun⟩ := hbegins hfree
      exact .inr ⟨hfirst, t', ht', hundertakes', hbegun⟩
    · exact .inl (by rw [hdone]; simp)

/-- A radio whose reads fail. -/
def deaf : Platform :=
  { Course.slow with failures := Table.insert ∅ .read .notConnected, held := [] }

def battery : Characteristic := ⟨.ofShort 0x2a19, .ofShort 0x180f, 2, []⟩

theorem answered_once_failedRead :
    let lamp := Course.lamp
    let k : PeerCall handles := .readCharacteristic battery
    let s := (start .default deaf).actAll [.use ⟨1⟩ .openSide]
    let window := (s.act (.call ⟨1⟩ lamp k)).instants
      [.happen (.step 1) (by simp), .happen (.step 0) (by simp), .happen (.step 1) (by simp)]
    ∃ o ∈ window, ∃ status, o.resolved? 1 = some (.read lamp battery, false) ∧
      status ≠ Status.ok ∧ o.postedBy 1 =
        [.report ⟨1⟩ (.peer lamp.peer (.characteristicRead status battery.uuid []))] := by
  intro lamp k s window
  have hresolved : (window.filterMap (·.resolved? 1)).map Prod.snd = [false] := by decide +kernel
  have hrunning : ∀ o ∈ window, o.scene.worker.running = true := by decide +kernel
  obtain ⟨-, hanswers⟩ := (answered_once .default deaf [.use ⟨1⟩ .openSide] ⟨1⟩ lamp k
    [.happen (.step 1) (by simp), .happen (.step 0) (by simp), .happen (.step 1) (by simp)]).1 _ rfl
  cases hanswers with
  | awaited hidle =>
    have hnone : window.filterMap (·.resolved? 1) = [] :=
      List.filterMap_eq_nil_iff.mpr fun o ho => (hidle o ho).1
    rw [hnone] at hresolved
    cases hresolved
  | @completed us vs o worked r hos _ hdone hcompletes hanswer =>
    have ho : o ∈ window := by
      rw [show window = us ++ o :: vs from hos]
      exact List.mem_append_right _ List.mem_cons_self
    have hworked : worked ∈ (window.filterMap (·.resolved? 1)).map Prod.snd :=
      List.mem_map.mpr ⟨_, List.mem_filterMap.mpr ⟨o, ho, hdone⟩, rfl⟩
    rw [hresolved, List.mem_singleton] at hworked
    subst hworked
    rw [Instant.posts, if_pos (hrunning o ho)] at hanswer
    have hread : Completes (.readCharacteristic battery) false r := hcompletes
    cases hread with
    | @characteristicRead _ _ status value hstatus hvalue =>
      rw [hvalue rfl] at hanswer
      exact ⟨o, ho, status, hdone, fun hok => absurd (hstatus.mp hok) (by decide), hanswer⟩

end Scene

end GattHub.Radio
