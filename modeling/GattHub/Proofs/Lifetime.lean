import GattHub.Proofs.Session

/-! How long an identity of an attribute resolves, told from the discoveries of its peer, and what
a request that names it is answered. -/

namespace GattHub

open Gatt

variable {H : Handles}

/-- The attribute that a request to a peer names. -/
def PeerAction.attribute? : PeerAction → Option (Tier × AttrId)
  | .discoverCharacteristics s _ => some (.services, s)
  | .discoverDescriptors c | .readCharacteristic c | .writeCharacteristic c _ _ | .subscribe c
  | .unsubscribe c => some (.characteristics, c)
  | .readDescriptor d | .writeDescriptor d _ => some (.descriptors, d)
  | .connect | .disconnect | .discoverServices _ | .readRssi => none

def Request.attribute? (c : CentralId) (p : PeerId) : Request PeerId → Option (Tier × AttrId)
  | .act c' p' action => if c' = c ∧ p' = p then action.attribute? else none
  | .query (.characteristics c' p' s) => if c' = c ∧ p' = p then some (.services, s) else none
  | .query (.descriptors c' p' x) => if c' = c ∧ p' = p then some (.characteristics, x) else none
  | _ => none

namespace Peer

variable {q : Peer H}

theorem withEntry_eq {κ τ α : Type} (t : HandleTable κ τ) (id : AttrId) (f : Entry κ τ → α) :
    withEntry t id f = (t.get? id).elim (.error (.invalidHandle id)) fun e => .ok (f e) := by
  simp only [withEntry, HandleTable.get]
  cases t.get? id <;> rfl

theorem prepare_of_attribute {action : PeerAction} {tier : Tier} {id : AttrId}
    (hup : q.state = .connected) (hid : action.attribute? = some (tier, id)) :
    (q.tree.Live tier id → ∃ r, q.prepare action = .ok r) ∧
      (¬ q.tree.Live tier id → q.prepare action = .error (.invalidHandle id)) := by
  have hentry {κ τ : Type} (t : HandleTable κ τ) (f : Entry κ τ → Prepared H) :
      ((t.get? id).isSome → ∃ r, q.whenConnected (withEntry t id f) = .ok r) ∧
        (¬ (t.get? id).isSome →
          q.whenConnected (withEntry t id f) = .error (.invalidHandle id)) := by
    rw [whenConnected, if_pos hup, withEntry_eq]
    cases t.get? id <;> simp
  cases action <;> simp only [PeerAction.attribute?, reduceCtorEq, Option.some.injEq,
    Prod.mk.injEq] at hid
  all_goals
    obtain ⟨rfl, rfl⟩ := hid
    exact hentry _ _

theorem result_perform (answers : Answers H) {action : PeerAction} {tier : Tier} {id : AttrId}
    (hup : q.state = .connected) (hid : action.attribute? = some (tier, id)) :
    (q.perform answers action).result = .error (.invalidHandle id) ↔ ¬ q.tree.Live tier id := by
  obtain ⟨hlive, hdead⟩ := prepare_of_attribute hup hid
  constructor
  · intro hresult hl
    obtain ⟨r, hr⟩ := hlive hl
    simp only [perform, hr] at hresult
    split at hresult <;> cases hresult
  · intro hl
    simp only [perform, hdead hl]

end Peer

namespace Hub

variable {h : Hub H} {c : CentralId} {p : PeerId} {q : Peer H}

theorem result_act (hq : h.peer? c p = some q) (answers : Answers H) (action : PeerAction) :
    (h.request answers (.act c p action)).result =
      (q.perform answers action).result.map fun _ => .done := by
  obtain ⟨m, hm, hq⟩ := peer?_eq_some.mp hq
  rw [request, (noting_spec _ _ _).2.1]
  simp [reply, withCentral, central_of_get? hm, Central.withPeer, Central.track, hq]

theorem peer_of_peer? (hq : h.peer? c p = some q) : h.peer c p = .ok q := by
  obtain ⟨m, hm, hq⟩ := peer?_eq_some.mp hq
  simp [peer, central_of_get? hm, Central.peer, hq, Except.bind]

theorem answer_characteristics (hq : h.peer? c p = some q) (s : AttrId) :
    h.answer (.characteristics c p s) = .error (.invalidHandle s) ↔ ¬ q.tree.Live .services s := by
  simp only [answer, peer_of_peer? hq, Except.bind, Tree.characteristicsOf, HandleTable.get,
    Tree.Live]
  cases q.tree.services.get? s <;> simp [answer.listed, Except.map, Rejection.ofUnresolved]

theorem answer_descriptors (hq : h.peer? c p = some q) (x : AttrId) :
    h.answer (.descriptors c p x) = .error (.invalidHandle x) ↔
      ¬ q.tree.Live .characteristics x := by
  simp only [answer, peer_of_peer? hq, Except.bind, Tree.descriptorsOf, HandleTable.get, Tree.Live]
  cases q.tree.characteristics.get? x <;> simp [answer.listed, Except.map, Rejection.ofUnresolved]

/-- Over an established link, a request that names an attribute of a peer is answered that the
handle is invalid just if the attribute is not live. -/
theorem result_of_attribute (hq : h.peer? c p = some q) (hup : q.state = .connected)
    (answers : Answers H) {r : Request PeerId} {tier : Tier} {id : AttrId}
    (hid : r.attribute? c p = some (tier, id)) :
    (h.request answers r).result = .error (.invalidHandle id) ↔ ¬ q.tree.Live tier id := by
  cases r with
  | act c' p' action =>
    simp only [Request.attribute?] at hid
    split at hid
    next hcp =>
      obtain ⟨rfl, rfl⟩ := hcp
      rw [result_act hq, ← Peer.result_perform answers hup hid]
      cases (q.perform answers action).result <;> simp [Except.map]
    next => cases hid
  | query k =>
    cases k with
    | characteristics c' p' s =>
      simp only [Request.attribute?] at hid
      split at hid
      next hcp =>
        obtain ⟨rfl, rfl⟩ := hcp
        cases hid
        exact answer_characteristics hq _
      next => cases hid
    | descriptors c' p' x =>
      simp only [Request.attribute?] at hid
      split at hid
      next hcp =>
        obtain ⟨rfl, rfl⟩ := hcp
        cases hid
        exact answer_descriptors hq _
      next => cases hid
    | _ => cases hid
  | _ => cases hid

end Hub

namespace Run

/-- An attribute of a tracked peer resolves just if it was reported since the peer was last
untracked and no such report was ended. A request that names it is answered accordingly. As long
as no identity is reported by two discoveries, it resolves until a discovery supersedes the one
that reported it. -/
theorem attribute_lifetime (settings : Settings) (ms : List (Move H))
    (hbound : (of settings ms).found.length < UInt64.size) {h : Hub H}
    (hh : (of settings ms).hub = some h) {c : CentralId} {p : PeerId} {q : Peer H}
    (hq : h.peer? c p = some q) :
    (∀ tier x, q.tree.Live tier x ↔ Reported ((of settings ms).discoveries c p) tier x ∧
        ¬ Ended ((of settings ms).discoveries c p) tier x) ∧
      (q.state = .connected → ∀ answers r tier x, r.attribute? c p = some (tier, x) →
        ((h.request answers r).result = .error (.invalidHandle x) ↔ ¬ q.tree.Live tier x)) ∧
      (Unshared ((of settings ms).discoveries c p) → ∀ before e rest tier x,
        (of settings ms).discoveries c p = before ++ e :: rest → e.Reports tier x →
        (q.tree.Live tier x ↔ ∀ d ∈ rest, ¬ Supersedes before d e.scope)) := by
  obtain ⟨n, -, hlearned⟩ := learned settings ms hbound h hh
  have hfaithful := hlearned.faithful hq
  refine ⟨hfaithful.live_iff, fun hup answers r tier x hid =>
    Hub.result_of_attribute hq hup answers hid, ?_⟩
  intro hunshared before e rest tier x hds hx
  have hended := hunshared.ended_iff (fun c => hfaithful.parent_reported before e rest c hds) hds hx
  have hreported : Reported ((of settings ms).discoveries c p) tier x := ⟨e, by simp [hds], hx⟩
  rw [hfaithful.live_iff, hended]
  refine ⟨fun hno d hd hsup => hno.2 ⟨d, hd, hsup⟩, fun hno => ⟨hreported, ?_⟩⟩
  rintro ⟨d, hd, hsup⟩
  exact hno d hd hsup

/-- Two services report one and the same characteristic, first with a descriptor. Then the services
are discovered anew. -/
def sharedMoves : List (Move .numbers) :=
  [.request .agreeing .allocate, .request .agreeing (.act ⟨1⟩ default .connect),
    .report ⟨1⟩ (.peer default (.connected .ok)),
    .request .agreeing (.act ⟨1⟩ default (.discoverServices [])),
    .report ⟨1⟩ (.peer default (.servicesDiscovered .ok [⟨1, default⟩, ⟨2, default⟩])),
    .request .agreeing (.act ⟨1⟩ default (.discoverCharacteristics ⟨1⟩ [])),
    .report ⟨1⟩ (.peer default (.characteristicsDiscovered .ok 1 [⟨10, default, 2⟩])),
    .request .agreeing (.act ⟨1⟩ default (.discoverDescriptors ⟨3⟩)),
    .report ⟨1⟩ (.peer default (.descriptorsDiscovered .ok 10 [⟨20, default⟩])),
    .request .agreeing (.act ⟨1⟩ default (.discoverCharacteristics ⟨2⟩ [])),
    .report ⟨1⟩ (.peer default (.characteristicsDiscovered .ok 2 [⟨10, default, 2⟩])),
    .request .agreeing (.act ⟨1⟩ default (.discoverServices [])),
    .report ⟨1⟩ (.peer default (.servicesDiscovered .ok [⟨1, default⟩, ⟨2, default⟩]))]

def sharedHub : Hub .numbers := (of .default sharedMoves).hub.getD (.new .default)

def sharedPeer : Peer .numbers := (sharedHub.peer? ⟨1⟩ default).getD (.new ⟨1⟩ default 0)

/-- The descriptor outlives the rediscovery of the services, and can be read. -/
theorem attribute_lifetime_shared :
    (of .default sharedMoves).found.length < UInt64.size ∧
      (of .default sharedMoves).hub = some sharedHub ∧
      sharedHub.peer? ⟨1⟩ default = some sharedPeer ∧ sharedPeer.tree.Live .descriptors ⟨4⟩ ∧
      ((of .default sharedMoves).discoveries ⟨1⟩ default).getLast?.map (·.scope) = some .services ∧
      ¬ Ended ((of .default sharedMoves).discoveries ⟨1⟩ default) .descriptors ⟨4⟩ ∧
      (sharedHub.request .agreeing (.act ⟨1⟩ default (.readDescriptor ⟨4⟩))).result ≠
        .error (.invalidHandle ⟨4⟩) := by
  have hlive : sharedPeer.tree.Live .descriptors ⟨4⟩ :=
    show (sharedPeer.tree.descriptors.get? ⟨4⟩).isSome by decide
  obtain ⟨hlaw, hanswer, -⟩ := attribute_lifetime .default sharedMoves (by decide)
    (h := sharedHub) rfl (c := ⟨1⟩) (p := default) (q := sharedPeer) rfl
  exact ⟨by decide, rfl, rfl, hlive, by decide, ((hlaw .descriptors ⟨4⟩).mp hlive).2, fun herror =>
    (hanswer (by decide) .agreeing _ .descriptors ⟨4⟩ rfl).mp herror hlive⟩

end Run

end GattHub
