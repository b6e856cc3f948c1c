import GattHub.Proofs.Asking

/-! The exact outcome of a request to a peer: the first objection to it, or else that it is granted.
The call that it makes names the objects by which the host itself made the peer and the attribute
known. -/

namespace GattHub

open Gatt

variable {H : Handles}

namespace Ask

/-- What can be said against a request, in the order in which it counts. -/
def objections (answers : Answers H) (hub : Option (Hub H)) (c : CentralId) (text : String)
    (ask : Ask) : List (Option Rejection) :=
  let named := PeerId.parse? text
  let met := hub.bind fun h => named.bind fun p => ask.met? answers h c p
  [if named.isNone then some (.malformedPeer text) else none,
    if hub.isNone then some .closed else none,
    if (hub.bind (·.centrals.get? c)).isNone then some (.unknownCentral c) else none,
    if met.isNone then named.map .unknownPeer else none,
    met.bind fun q => if ask.suits q.state then none else some (ask.misplaced q.id q.state),
    met.bind fun q => ask.attribute?.bind fun (tier, x) =>
      if q.tree.Live tier x then none else some (.invalidHandle x),
    met.bind fun q => (ask.refusal? answers q).map .refused]

/-- The one that counts. -/
def objection? (answers : Answers H) (hub : Option (Hub H)) (c : CentralId) (text : String)
    (ask : Ask) : Option Rejection := (ask.objections answers hub c text).findSome? id

variable {answers : Answers H} {hub : Option (Hub H)} {c : CentralId} {text : String} {ask : Ask}
  {result : Except Rejection Reply} {calls : List (CentralId × HostCall H)}

/-- The call of a request that names an attribute goes to the attribute of that identity. -/
theorem names_of_call? {t : Tree H.Service H.Characteristic H.Descriptor} {k : PeerCall H}
    (hk : ask.call? t = some k) {tier : Tier} {x : AttrId} (hx : ask.attribute? = some (tier, x)) :
    ∃ a, k.attribute? = some a ∧ a.tier = tier ∧ t.Names x a := by
  cases ask with
  | forget | attMtu => cases hx
  | act action =>
    cases action <;> cases hx
    all_goals
      obtain ⟨e, he, rfl⟩ := Option.map_eq_some_iff.mp hk
      exact ⟨_, rfl, rfl, he⟩

theorem Served.objection (hs : ask.Served answers hub c text result calls) :
    (∀ reason, ask.objection? answers hub c text = some reason → result = .error reason) ∧
      (ask.objection? answers hub c text = none → ∃ h p q reply, hub = some h ∧
        PeerId.parse? text = some p ∧ ask.met? answers h c p = some q ∧
        ask.reply? answers q = some reply ∧ result = .ok reply) := by
  cases hs with
  | malformed hp => simp [objection?, objections, hp]
  | closed p hp hhub => simp [objection?, objections, hp, hhub]
  | unmanaged p h hp hhub hm => simp [objection?, objections, hp, hhub, hm]
  | unmet p h hp hhub hm hmet =>
    obtain ⟨m, hm⟩ := Option.isSome_iff_exists.mp hm
    simp [objection?, objections, hp, hhub, hm, hmet]
  | met p h q _ _ hp hhub hm hmet hc hid ha =>
    obtain ⟨m, hm⟩ := Option.isSome_iff_exists.mp hm
    -- Once the request has come to the peer, only the last three objections can be made.
    have hlast : ask.objection? answers hub c text =
        ([if ask.suits q.state then none else some (ask.misplaced q.id q.state),
          ask.attribute?.bind fun (tier, x) =>
            if q.tree.Live tier x then none else some (.invalidHandle x),
          (ask.refusal? answers q).map .refused] : List (Option Rejection)).findSome? id := by
      simp [objection?, objections, hp, hhub, hm, hmet]
    rw [hlast]
    have hresolves (hlive : ∀ tier x, ask.attribute? = some (tier, x) → q.tree.Live tier x) :
        (ask.attribute?.bind fun (tier, x) =>
          if q.tree.Live tier x then none else some (Rejection.invalidHandle x)) = none := by
      rw [Option.bind_eq_none_iff]
      rintro ⟨tier, x⟩ hx
      exact if_pos (hlive tier x hx)
    cases ha with
    | misplaced hno => simp [hno]
    | unresolved tier x hyes hx hdead => simp [hyes, hx, hdead]
    | forgotten hask hyes =>
      subst hask
      simp [hyes, attribute?, refusal?, reply?, hhub, hp, hmet]
    | refused k r hyes hlive hk hr => simp [hyes, hresolves hlive, hr]
    | granted k reply hyes hlive hk hr hreply =>
      simp [hyes, hresolves hlive, hr, hhub, hp, hmet, hreply]

/-- Which calls are made. Apart from the lookup of a peer that is not tracked, it is the call of the
request itself, just if the host is reached. -/
theorem Served.calls_eq (hs : ask.Served answers hub c text result calls) :
    ∃ looks made, calls = looks ++ made ∧
      (looks = [] ∨ ∃ h p, hub = some h ∧ PeerId.parse? text = some p ∧
        looks = ask.lookups h c p) ∧
      (¬ ReachesHost result ∨ ask = forget → made = []) ∧
      (ReachesHost result → ask ≠ forget → ∃ h p q k, hub = some h ∧
        PeerId.parse? text = some p ∧ ask.met? answers h c p = some q ∧
        ask.call? q.tree = some k ∧ made = [(c, .peer q.native k)]) := by
  cases hs with
  | malformed | closed | unmanaged => exact ⟨[], [], rfl, .inl rfl, fun _ => rfl, nofun⟩
  | unmet p h hp hhub =>
    exact ⟨_, [], (List.append_nil _).symm, .inr ⟨h, p, hhub, hp, rfl⟩, fun _ => rfl, nofun⟩
  | met p h q _ made hp hhub hm hmet hc hid ha =>
    refine ⟨_, made, rfl, .inr ⟨h, p, hhub, hp, rfl⟩, ?_⟩
    cases ha with
    | misplaced hno =>
      refine ⟨fun _ => rfl, fun hreached => ?_⟩
      have hunreached : ¬ ReachesHost (.error (ask.misplaced q.id q.state)) := by
        cases ask with
        | forget | attMtu => exact id
        | act action => cases action <;> exact id
      exact absurd hreached hunreached
    | unresolved => exact ⟨fun _ => rfl, nofun⟩
    | forgotten hask => exact ⟨fun _ => rfl, fun _ hno => absurd hask hno⟩
    | refused k r hyes hlive hk hr =>
      refine ⟨?_, fun _ _ => ⟨h, p, q, k, hhub, hp, hmet, hk, by rw [hc]⟩⟩
      rintro (hno | rfl)
      · exact absurd trivial hno
      · cases hk
    | granted k reply hyes hlive hk =>
      refine ⟨?_, fun _ _ => ⟨h, p, q, k, hhub, hp, hmet, hk, by rw [hc]⟩⟩
      rintro (hno | rfl)
      · exact absurd trivial hno
      · cases hk

/-- The peer that a request is put to is tracked, or the host makes it known and it has no
attributes. -/
theorem met?_eq_some {h : Hub H} {p : PeerId} {q : Peer H} (hq : ask.met? answers h c p = some q) :
    h.peer? c p = some q ∨
      h.peer? c p = none ∧ answers.lookup c p = some q.native ∧ q.tree = ∅ := by
  cases hpeer : h.peer? c p with
  | some q' =>
    simp only [met?, hpeer, Option.some_or, Option.some.injEq] at hq
    exact .inl (congrArg some hq)
  | none =>
    simp only [met?, hpeer, Option.none_or, Option.ite_none_left_eq_some] at hq
    obtain ⟨-, hq⟩ := hq
    obtain ⟨native, hlookup, rfl⟩ := Option.map_eq_some_iff.mp hq
    exact .inr ⟨rfl, hlookup, rfl⟩

end Ask

namespace Run

variable (settings : Settings) (ms : List (Move H))

/-- The reply to a request to a peer is the first objection to it, or else it is granted. The host
is called once if it is reached, and not at all otherwise, but that a peer is looked up that is not
tracked. The call names the object by which the host made the peer known, when it came to be tracked
or just now, and the one for which the identity was given out. -/
theorem request_outcome (answers : Answers H) (c : CentralId) (text : String) (ask : Ask) :
    let past := (of settings ms).past
    let hub := (of settings ms).hub
    let s := (ask.request c text).serve answers hub
    (∀ reason, ask.objection? answers hub c text = some reason → s.result = .error reason) ∧
    (ask.objection? answers hub c text = none → ∃ h p q reply, hub = some h ∧
      PeerId.parse? text = some p ∧ ask.met? answers h c p = some q ∧
      ask.reply? answers q = some reply ∧ s.result = .ok reply) ∧
    ∃ looks made, Effect.calls s.effects = looks ++ made ∧
      (looks = [] ∨ ∃ h p, hub = some h ∧ PeerId.parse? text = some p ∧
        looks = ask.lookups h c p) ∧
      (¬ ReachesHost s.result ∨ ask = .forget → made = []) ∧
      (ReachesHost s.result → ask ≠ .forget → ∃ h p q k, hub = some h ∧
        PeerId.parse? text = some p ∧ ask.met? answers h c p = some q ∧
        ask.call? q.tree = some k ∧ made = [(c, .peer q.native k)] ∧
        (Introduced c p q.native past ∨
          h.peer? c p = none ∧ answers.lookup c p = some q.native) ∧
        ∀ tier x, ask.attribute? = some (tier, x) →
          ∃ a, k.attribute? = some a ∧ a.tier = tier ∧ Minted c p x a past) := by
  intro past hub s
  have hserved : ask.Served answers hub c text s.result (Effect.calls s.effects) :=
    Ask.served hub (labelled settings ms).2 answers c text ask
  obtain ⟨hrefused, hgranted⟩ := hserved.objection
  obtain ⟨looks, made, hcalls, hlooks, hnone, hone⟩ := hserved.calls_eq
  refine ⟨hrefused, hgranted, looks, made, hcalls, hlooks, hnone, fun hreached hask => ?_⟩
  obtain ⟨h, p, q, k, hhub, hp, hmet, hk, hmade⟩ := hone hreached hask
  refine ⟨h, p, q, k, hhub, hp, hmet, hk, hmade, ?_, fun tier x hx => ?_⟩
  · rcases Ask.met?_eq_some hmet with hq | ⟨hq, hlookup, -⟩
    · exact .inl (introduced settings ms hhub hq)
    · exact .inr ⟨hq, hlookup⟩
  · obtain ⟨a, ha, htier, hnames⟩ := Ask.names_of_call? hk hx
    rcases Ask.met?_eq_some hmet with hq | ⟨-, -, hempty⟩
    · exact ⟨a, ha, htier, minted settings ms hhub ⟨q, hq, hnames⟩⟩
    · rw [hempty] at hnames
      exact absurd hnames Tree.not_names_empty

end Run

end GattHub
