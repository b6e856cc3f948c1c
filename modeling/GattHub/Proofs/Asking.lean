import GattHub.Proofs.Origin
import GattHub.Proofs.Serving

/-! What is answered to a request to a peer, and which calls it makes. The objections to a request
count in one order, whatever is asked; the host is called only where nothing speaks against it. -/

namespace GattHub

open Gatt

variable {H : Handles}

/-- What can be asked of a peer. -/
inductive Ask where
  | forget
  | attMtu
  | act (action : PeerAction)
  deriving DecidableEq

/-- The attribute that a call names. -/
def PeerCall.attribute? :
    PeerCall H → Option (Native H.Service H.Characteristic H.Descriptor)
  | .discoverCharacteristics s _ => some (.service s)
  | .discoverDescriptors c | .readCharacteristic c | .writeCharacteristic c _ _ | .subscribe c
  | .unsubscribe c => some (.characteristic c)
  | .readDescriptor d | .writeDescriptor d _ => some (.descriptor d)
  | .connect | .cancelConnection | .attMtu | .discoverServices _ | .readRssi => none

instance {S C D : Type} (t : Tree S C D) (tier : Tier) (x : AttrId) : Decidable (t.Live tier x) :=
  match tier with
  | .services => inferInstanceAs (Decidable ((t.services.get? x).isSome = true))
  | .characteristics => inferInstanceAs (Decidable ((t.characteristics.get? x).isSome = true))
  | .descriptors => inferInstanceAs (Decidable ((t.descriptors.get? x).isSome = true))

/-- Whether the host was called: it was if the request is granted, or turned down by the host. -/
def ReachesHost : Except Rejection Reply → Prop
  | .ok _ | .error (.refused _) => True
  | .error _ => False

namespace Ask

def request {π : Type} (c : CentralId) (p : π) : Ask → Request π
  | forget => .forget c p
  | attMtu => .attMtu c p
  | act action => .act c p action

/-- Whether it can be asked in a state of the link. -/
def suits (s : LinkState) : Ask → Bool
  | forget | act .connect => s = .disconnected
  | act .disconnect => s = .connecting ∨ s = .connected
  | act .readRssi => s ≠ .disconnected
  | _ => s = .connected

/-- How it is turned down in a state in which it cannot be asked. -/
def misplaced (p : PeerId) (s : LinkState) : Ask → Rejection
  | forget | act .connect | act .disconnect => .wrongState p s
  | _ => .notConnected p

/-- The identity that it names, with the tier in which that has to resolve. -/
def attribute? : Ask → Option (Tier × AttrId)
  | act action => action.attribute?
  | _ => none

/-- The call that it makes, if the identity that it names resolves. -/
def call? (t : Tree H.Service H.Characteristic H.Descriptor) : Ask → Option (PeerCall H)
  | forget => none
  | attMtu => some .attMtu
  | act .connect => some .connect
  | act .disconnect => some .cancelConnection
  | act (.discoverServices filter) => some (.discoverServices filter)
  | act (.discoverCharacteristics s filter) =>
    (t.services.handle? s).map fun k => .discoverCharacteristics k filter
  | act (.discoverDescriptors c) => (t.characteristics.handle? c).map .discoverDescriptors
  | act (.readCharacteristic c) => (t.characteristics.handle? c).map .readCharacteristic
  | act (.writeCharacteristic c value noResponse) =>
    (t.characteristics.handle? c).map fun k => .writeCharacteristic k value noResponse
  | act (.readDescriptor d) => (t.descriptors.handle? d).map .readDescriptor
  | act (.writeDescriptor d value) => (t.descriptors.handle? d).map fun k => .writeDescriptor k value
  | act (.subscribe c) => (t.characteristics.handle? c).map .subscribe
  | act (.unsubscribe c) => (t.characteristics.handle? c).map .unsubscribe
  | act .readRssi => some .readRssi

/-- How the host turns it down. An unknown MTU counts as turned down. -/
def refusal? (answers : Answers H) (q : Peer H) : Ask → Option Refusal
  | forget => none
  | attMtu =>
    if (answers.attMtu q.central q.native).isSome then none
    else some (.notSupported "ATT MTU unavailable")
  | act action =>
    ((act action).call? q.tree).bind fun k => answers.refusal q.central (.peer q.native k)

def reply? (answers : Answers H) (q : Peer H) : Ask → Option Reply
  | attMtu => (answers.attMtu q.central q.native).map .mtu
  | _ => some .done

/-- The peer that it is put to: as it is tracked, or else as the host makes it known. A peer is not
made known in order to be forgotten. -/
def met? (answers : Answers H) (h : Hub H) (c : CentralId) (p : PeerId) (ask : Ask) :
    Option (Peer H) :=
  (h.peer? c p).or (if ask = forget then none else (answers.lookup c p).map (.new c p))

/-- The host is asked for a peer that is not tracked. -/
def lookups (h : Hub H) (c : CentralId) (p : PeerId) (ask : Ask) :
    List (CentralId × HostCall H) :=
  if ask = forget ∨ (h.peer? c p).isSome then [] else [(c, .lookup p)]

/-- What becomes of it once it has come to the peer: the reply, and the calls. -/
inductive Answered (answers : Answers H) (q : Peer H) (ask : Ask) :
    Except Rejection Reply → List (CentralId × HostCall H) → Prop
  | misplaced : ask.suits q.state = false →
      Answered answers q ask (.error (ask.misplaced q.id q.state)) []
  | unresolved (tier : Tier) (x : AttrId) : ask.suits q.state = true →
      ask.attribute? = some (tier, x) → ¬ q.tree.Live tier x →
      Answered answers q ask (.error (.invalidHandle x)) []
  | forgotten : ask = forget → ask.suits q.state = true → Answered answers q ask (.ok .done) []
  | refused (k : PeerCall H) (r : Refusal) : ask.suits q.state = true →
      (∀ tier x, ask.attribute? = some (tier, x) → q.tree.Live tier x) →
      ask.call? q.tree = some k → ask.refusal? answers q = some r →
      Answered answers q ask (.error (.refused r)) [(q.central, .peer q.native k)]
  | granted (k : PeerCall H) (reply : Reply) : ask.suits q.state = true →
      (∀ tier x, ask.attribute? = some (tier, x) → q.tree.Live tier x) →
      ask.call? q.tree = some k → ask.refusal? answers q = none →
      ask.reply? answers q = some reply →
      Answered answers q ask (.ok reply) [(q.central, .peer q.native k)]

end Ask

namespace Peer

variable {q : Peer H} {action : PeerAction}

theorem live_of_none {x? : Option (Tier × AttrId)} (h : x? = none) (tier : Tier) (x : AttrId)
    (hx : x? = some (tier, x)) : q.tree.Live tier x := by
  rw [h] at hx
  cases hx

/-- How the checks of a request come out: the state of the link counts first, then the identity. -/
inductive Checked (q : Peer H) (action : PeerAction) : Except Rejection (Prepared H) → Prop
  | misplaced : (Ask.act action).suits q.state = false →
      Checked q action (.error ((Ask.act action).misplaced q.id q.state))
  | unresolved (tier : Tier) (x : AttrId) : (Ask.act action).suits q.state = true →
      action.attribute? = some (tier, x) → ¬ q.tree.Live tier x →
      Checked q action (.error (.invalidHandle x))
  | passed (prepared : Prepared H) : (Ask.act action).suits q.state = true →
      (∀ tier x, action.attribute? = some (tier, x) → q.tree.Live tier x) →
      (Ask.act action).call? q.tree = some prepared.call → Checked q action (.ok prepared)

theorem checked_entry {κ τ : Type} {t : HandleTable κ τ} {tier : Tier} {x : AttrId}
    {k : κ → PeerCall H} {f : Entry κ τ → Prepared H}
    (hprepare : q.prepare action = q.whenConnected (withEntry t x f))
    (hsuits : (Ask.act action).suits q.state = decide (q.state = .connected))
    (hmisplaced : (Ask.act action).misplaced q.id q.state = .notConnected q.id)
    (hx : action.attribute? = some (tier, x)) (hlive : q.tree.Live tier x ↔ (t.get? x).isSome)
    (hcall : (Ask.act action).call? q.tree = (t.handle? x).map k)
    (hf : ∀ e, (f e).call = k e.handle) : q.Checked action (q.prepare action) := by
  rw [hprepare, whenConnected]
  by_cases hup : q.state = .connected
  · rw [if_pos hup, withEntry_eq]
    have hyes : (Ask.act action).suits q.state = true := by rw [hsuits, hup]; rfl
    cases he : t.get? x with
    | none => exact .unresolved tier x hyes hx (by simp [hlive, he])
    | some e =>
      refine .passed (f e) hyes (fun tier' x' hx' => ?_) ?_
      · cases hx.symm.trans hx'
        simp [hlive, he]
      · rw [hcall, HandleTable.handle?_of_get? he, hf]
        rfl
  · rw [if_neg hup, ← hmisplaced]
    exact .misplaced (by simp [hsuits, hup])

theorem checked_prepare (q : Peer H) (action : PeerAction) :
    q.Checked action (q.prepare action) := by
  cases action with
  | connect =>
    simp only [prepare]
    by_cases hs : q.state = .disconnected
    · rw [if_pos hs]
      exact .passed _ (by simp [Ask.suits, hs]) (live_of_none rfl) rfl
    · rw [if_neg hs]
      exact .misplaced (by simp [Ask.suits, hs])
  | disconnect =>
    simp only [prepare]
    by_cases hs : q.state = .connecting ∨ q.state = .connected
    · rw [if_pos hs]
      exact .passed _ (by simp [Ask.suits, hs]) (live_of_none rfl) rfl
    · rw [if_neg hs]
      exact .misplaced (by simp [Ask.suits, hs])
  | readRssi =>
    simp only [prepare]
    by_cases hs : q.state = .disconnected
    · rw [if_pos hs]
      exact .misplaced (by simp [Ask.suits, hs])
    · rw [if_neg hs]
      exact .passed _ (by simp [Ask.suits, hs]) (live_of_none rfl) rfl
  | discoverServices filter =>
    simp only [prepare, whenConnected]
    by_cases hs : q.state = .connected
    · rw [if_pos hs]
      exact .passed _ (by simp [Ask.suits, hs]) (live_of_none rfl) rfl
    · rw [if_neg hs]
      exact .misplaced (by simp [Ask.suits, hs])
  | _ => exact checked_entry rfl rfl rfl rfl Iff.rfl rfl fun _ => rfl

theorem answered_perform (answers : Answers H) (q : Peer H) (action : PeerAction) :
    (Ask.act action).Answered answers q ((q.perform answers action).result.map fun _ => .done)
      (Effect.calls (q.perform answers action).effects) := by
  have hchecked := q.checked_prepare action
  simp only [perform]
  generalize q.prepare action = checks at hchecked
  cases hchecked with
  | misplaced hno => exact .misplaced hno
  | unresolved tier x hyes hx hdead => exact .unresolved tier x hyes hx hdead
  | passed prepared hyes hlive hk =>
    have hrefusal : (Ask.act action).refusal? answers q =
        answers.refusal q.central (.peer q.native prepared.call) := by
      simp [Ask.refusal?, hk]
    dsimp only
    cases hr : answers.refusal q.central (.peer q.native prepared.call) with
    | some r => exact .refused prepared.call r hyes hlive hk (hrefusal.trans hr)
    | none =>
      simp only [Effect.calls_call, calls_map_log]
      exact .granted prepared.call .done hyes hlive hk (hrefusal.trans hr) rfl

theorem answered_attMtu (answers : Answers H) (q : Peer H) :
    Ask.attMtu.Answered answers q ((q.attMtu answers).result.map .mtu)
      (Effect.calls (q.attMtu answers).effects) := by
  simp only [attMtu, whenConnected]
  by_cases hup : q.state = .connected
  · have hsuits : Ask.attMtu.suits q.state = true := by simp [Ask.suits, hup]
    rw [if_pos hup]
    cases hmtu : answers.attMtu q.central q.native with
    | some mtu =>
      exact .granted .attMtu (.mtu mtu) hsuits (live_of_none rfl) rfl (by simp [Ask.refusal?, hmtu])
        (by simp [Ask.reply?, hmtu])
    | none => exact .refused .attMtu _ hsuits (live_of_none rfl) rfl (by simp [Ask.refusal?, hmtu])
  · rw [if_neg hup]
    exact .misplaced (by simp [Ask.suits, hup])

end Peer

namespace Ask

/-- What becomes of it in the words of its caller: the reply, and the calls. -/
inductive Served (answers : Answers H) (hub : Option (Hub H)) (c : CentralId) (text : String)
    (ask : Ask) : Except Rejection Reply → List (CentralId × HostCall H) → Prop
  | malformed : PeerId.parse? text = none →
      Served answers hub c text ask (.error (.malformedPeer text)) []
  | closed (p : PeerId) : PeerId.parse? text = some p → hub = none →
      Served answers hub c text ask (.error .closed) []
  | unmanaged (p : PeerId) (h : Hub H) : PeerId.parse? text = some p → hub = some h →
      h.centrals.get? c = none → Served answers hub c text ask (.error (.unknownCentral c)) []
  | unmet (p : PeerId) (h : Hub H) : PeerId.parse? text = some p → hub = some h →
      (h.centrals.get? c).isSome → ask.met? answers h c p = none →
      Served answers hub c text ask (.error (.unknownPeer p)) (ask.lookups h c p)
  | met (p : PeerId) (h : Hub H) (q : Peer H) (result : Except Rejection Reply)
      (calls : List (CentralId × HostCall H)) : PeerId.parse? text = some p → hub = some h →
      (h.centrals.get? c).isSome → ask.met? answers h c p = some q → q.central = c → q.id = p →
      ask.Answered answers q result calls →
      Served answers hub c text ask result (ask.lookups h c p ++ calls)

section Served

variable {answers : Answers H} {h : Hub H} {c : CentralId} {p : PeerId} {text : String} {ask : Ask}

theorem served_withPeer (hl : h.Labelled) (hp : PeerId.parse? text = some p) (hask : ask ≠ forget)
    {α : Type} {f : Peer H → Response H (Peer H) α} {reply : α → Reply}
    (hf : ∀ q, ask.Answered answers q ((f q).result.map reply) (Effect.calls (f q).effects)) :
    let r := h.withCentral c (·.withPeer answers p f)
    ask.Served answers (some h) c text (r.result.map reply) (Effect.calls r.effects) := by
  intro r
  cases hm : h.centrals.get? c with
  | none =>
    simp only [r, Hub.withCentral_none hm]
    exact .unmanaged p h hp rfl hm
  | some m =>
    have hlive : (h.centrals.get? c).isSome := by rw [hm]; rfl
    have hpeer := Hub.peer?_of_get? hm p
    cases hq : m.peers.get? p with
    | some q =>
      have hq' : h.peer? c p = some q := hpeer.trans hq
      have hmet : ask.met? answers h c p = some q := by simp [met?, hq']
      have hlookups : ask.lookups h c p = [] := by simp [lookups, hq']
      have hserved : ask.Served answers (some h) c text _ _ := .met p h q _ _ hp rfl hlive hmet
        (hl.peer_central hq') (hl.peer_id hq') (hf q)
      rw [hlookups] at hserved
      simp only [r, Hub.withPeer_tracked hq']
      exact hserved
    | none =>
      have hno : h.peer? c p = none := hpeer.trans hq
      have hlookups : ask.lookups h c p = [(c, .lookup p)] := by simp [lookups, hno, hask]
      cases hlookup : answers.lookup c p with
      | none =>
        have hmet : ask.met? answers h c p = none := by simp [met?, hno, hask, hlookup]
        simp only [r, Hub.withPeer_unknown hm (hl.central_id hm) hq hlookup]
        have hserved : ask.Served answers (some h) c text _ _ := .unmet p h hp rfl hlive hmet
        rw [hlookups] at hserved
        exact hserved
      | some native =>
        have hmet : ask.met? answers h c p = some (.new c p native) := by
          simp [met?, hno, hask, hlookup]
        have hserved : ask.Served answers (some h) c text _ _ :=
          .met p h (.new c p native) _ _ hp rfl hlive hmet rfl rfl (hf (.new c p native))
        rw [hlookups] at hserved
        simp only [r, Hub.withPeer_known hm (hl.central_id hm) hq hlookup]
        exact hserved

theorem served_forget (hl : h.Labelled) (hp : PeerId.parse? text = some p) :
    let r := h.withCentral c (·.forget p)
    forget.Served answers (some h) c text (r.result.map fun _ => .done) (Effect.calls r.effects) := by
  intro r
  have hlookups : forget.lookups h c p = [] := by simp [lookups]
  cases hm : h.centrals.get? c with
  | none =>
    simp only [r, Hub.withCentral_none hm]
    exact .unmanaged p h hp rfl hm
  | some m =>
    have hlive : (h.centrals.get? c).isSome := by rw [hm]; rfl
    have hpeer := Hub.peer?_of_get? hm p
    simp only [r, Hub.withCentral_some hm, Central.forget, Central.peer]
    cases hq : m.peers.get? p with
    | none =>
      have hmet : forget.met? answers h c p = none := by simp [met?, hpeer, hq]
      have hserved : forget.Served answers (some h) c text _ _ := .unmet p h hp rfl hlive hmet
      rw [hlookups] at hserved
      exact hserved
    | some q =>
      have hq' : h.peer? c p = some q := hpeer.trans hq
      have hmet : forget.met? answers h c p = some q := by simp [met?, hq']
      have hserved {result : Except Rejection Reply}
          (ha : forget.Answered answers q result []) :
          forget.Served answers (some h) c text result [] := by
        have hmet : forget.Served answers (some h) c text _ _ := .met p h q _ _ hp rfl hlive hmet
          (hl.peer_central hq') (hl.peer_id hq') ha
        rwa [hlookups] at hmet
      by_cases hdown : q.state = .disconnected
      · simp only [if_pos hdown]
        exact hserved (.forgotten rfl (by simp [suits, hdown]))
      · simp only [if_neg hdown]
        rw [← hl.peer_id hq']
        exact hserved (.misplaced (by simp [suits, hdown]))

theorem resolve_request (c : CentralId) (text : String) (ask : Ask) :
    (PeerId.parse? text = none →
        (ask.request c text).resolve = .error (.malformedPeer text)) ∧
      ∀ p, PeerId.parse? text = some p → (ask.request c text).resolve = .ok (ask.request c p) := by
  refine ⟨fun hp => ?_, fun p hp => ?_⟩ <;> cases ask <;>
    simp [request, Request.resolve, Query.resolve.named, hp, Except.map]

/-- Every request to a peer is served in one of these ways. -/
theorem served (hub : Option (Hub H)) (hl : ∀ h, hub = some h → h.Labelled) (answers : Answers H)
    (c : CentralId) (text : String) (ask : Ask) :
    let s := (ask.request c text).serve answers hub
    ask.Served answers hub c text s.result (Effect.calls s.effects) := by
  intro s
  obtain ⟨hmalformed, hnamed⟩ := resolve_request c text ask
  cases hp : PeerId.parse? text with
  | none =>
    simp only [s, Request.serve_of_error (hmalformed hp)]
    exact .malformed hp
  | some p =>
    cases hub with
    | none =>
      simp only [s, Request.serve_none (hnamed p hp)]
      exact .closed p hp rfl
    | some h =>
      simp only [s, Request.serve_some (hnamed p hp)]
      cases ask with
      | forget =>
        simp only [request, Hub.request, (Hub.noting_spec c p _).2.1, Moment.calls_noting]
        exact served_forget (hl h rfl) hp
      | attMtu =>
        have hask : attMtu ≠ forget := by simp
        exact served_withPeer (hl h rfl) hp hask fun q => q.answered_attMtu answers
      | act action =>
        simp only [request, Hub.request, (Hub.noting_spec c p _).2.1, Moment.calls_noting]
        have hask : act action ≠ forget := by simp
        exact served_withPeer (hl h rfl) hp hask fun q => q.answered_perform answers action

end Served

end Ask

end GattHub
