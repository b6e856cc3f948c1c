import GattHub.Proofs.Invariants

/-! What a request or a report to one peer makes of the whole hub: the peer goes over to its next
state, and nothing else changes. -/

namespace GattHub

namespace Table

variable {K V : Type} [DecidableEq K]

theorem insert_eq_modify {t : Table K V} {k : K} {v : V} (h : t.get? k = some v) (f : V → V) :
    t.insert k (f v) = t.modify k f := by
  rw [insert, dif_pos (mem_keys_iff.2 (by rw [h]; rfl))]
  apply ext
  refine List.map_congr_left fun e he => ?_
  by_cases hk : e.1 = k
  · have hv : t.get? e.1 = some e.2 := mem_entries_iff.1 he
    rw [hk, h] at hv
    simp [hk, Option.some.inj hv]
  · simp [hk]

theorem insert_insert (t : Table K V) (k : K) (v w : V) :
    (t.insert k v).insert k w = t.insert k w := by
  have hv : (t.insert k v).get? k = some v := by rw [get?_insert, if_pos rfl]
  rw [insert_eq_modify hv fun _ => w]
  apply ext
  by_cases hk : k ∈ t.keys
  · simp only [insert, dif_pos hk, modify, List.map_map]
    refine List.map_congr_left fun e _ => ?_
    by_cases he : e.1 = k <;> simp [he]
  · have hother : ∀ e ∈ t.entries, (e.1, if e.1 = k then w else e.2) = e := by
      intro e he
      have hne : e.1 ≠ k := fun h => hk (h ▸ List.mem_map_of_mem he)
      simp [hne]
    simp only [insert, dif_neg hk, modify, List.map_append, List.map_cons, List.map_nil]
    rw [List.map_congr_left hother]
    simp

end Table

variable {H : Handles}

namespace Hub

/-- The hub with a peer in the given state. -/
def setPeer (h : Hub H) (c : CentralId) (p : PeerId) (q : Peer H) : Hub H :=
  { h with centrals := h.centrals.modify c fun m => { m with peers := m.peers.insert p q } }

variable {h : Hub H} {c : CentralId} {p : PeerId} {m : Central H} {q : Peer H}

theorem setPeer_eq (hm : h.centrals.get? c = some m) (p : PeerId) (q : Peer H) :
    h.setPeer c p q =
      { h with centrals := h.centrals.insert c { m with peers := m.peers.insert p q } } := by
  rw [setPeer, ← Table.insert_eq_modify hm fun m => { m with peers := m.peers.insert p q }]

theorem setPeer_self (hq : h.peer? c p = some q) : h.setPeer c p q = h := by
  obtain ⟨m, hm, hp⟩ := peer?_eq_some.mp hq
  rw [setPeer_eq hm, Table.insert_of_get? hp, Table.insert_of_get? hm]

theorem peer?_setPeer (hm : h.centrals.get? c = some m) (q : Peer H) (c' : CentralId)
    (p' : PeerId) :
    (h.setPeer c p q).peer? c' p' = if c' = c ∧ p' = p then some q else h.peer? c' p' := by
  rw [setPeer_eq hm, peer?_of_insert rfl]
  by_cases hc : c' = c
  · by_cases hp : p' = p <;> simp [hc, hp, Table.get?_insert, peer?_of_get? hm]
  · simp [hc]

theorem central_of_none (hc : h.centrals.get? c = none) :
    h.central c = .error (.unknownCentral c) := by
  simp [central, hc]

section Request

variable {α : Type} {answers : Answers H}

theorem withCentral_none (hc : h.centrals.get? c = none)
    (f : Central H → Response H (Central H) α) :
    h.withCentral c f = ⟨h, .error (.unknownCentral c), []⟩ := by
  simp [withCentral, central_of_none hc]

theorem withCentral_some (hm : h.centrals.get? c = some m)
    (f : Central H → Response H (Central H) α) :
    h.withCentral c f =
      ⟨{ h with centrals := h.centrals.insert c (f m).state }, (f m).result, (f m).effects⟩ := by
  simp [withCentral, central_of_get? hm]

theorem withPeer_tracked (hq : h.peer? c p = some q) (f : Peer H → Response H (Peer H) α) :
    h.withCentral c (·.withPeer answers p f) =
      ⟨h.setPeer c p (f q).state, (f q).result, (f q).effects⟩ := by
  obtain ⟨m, hm, hp⟩ := peer?_eq_some.mp hq
  rw [withCentral_some hm, setPeer_eq hm]
  simp [Central.withPeer, Central.track, hp]

/-- A peer that is not tracked yet is tracked from now on if the host knows it. -/
theorem withPeer_known (hm : h.centrals.get? c = some m) (hid : m.id = c)
    (hp : m.peers.get? p = none) {native : H.Peer} (hlookup : answers.lookup c p = some native)
    (f : Peer H → Response H (Peer H) α) :
    h.withCentral c (·.withPeer answers p f) =
      ⟨h.setPeer c p (f (.new c p native)).state, (f (.new c p native)).result,
        [.call c (.lookup p) (answers.refusal c (.lookup p)), .log (.tracking c p)] ++
          (f (.new c p native)).effects⟩ := by
  rw [withCentral_some hm, setPeer_eq hm]
  subst hid
  simp [Central.withPeer, Central.track, Central.call, hp, hlookup, Table.insert_insert]

theorem withPeer_unknown (hm : h.centrals.get? c = some m) (hid : m.id = c)
    (hp : m.peers.get? p = none) (hlookup : answers.lookup c p = none)
    (f : Peer H → Response H (Peer H) α) :
    h.withCentral c (·.withPeer answers p f) =
      ⟨h, .error (.unknownPeer p), [.call c (.lookup p) (answers.refusal c (.lookup p))]⟩ := by
  rw [withCentral_some hm]
  subst hid
  simp [Central.withPeer, Central.track, Central.call, hp, hlookup, Table.insert_of_get? hm]

end Request

theorem receive_tracked (hq : h.peer? c p = some q) (report : PeerReport H) :
    (h.receive c (.peer p report)).state =
      { h.setPeer c p (q.receive h.settings h.ids report).state.1 with
        ids := (q.receive h.settings h.ids report).state.2 } := by
  obtain ⟨m, hm, hp⟩ := peer?_eq_some.mp hq
  rw [setPeer_eq hm]
  simp [receive, hm, Central.receive, Central.peerReported, hp]

end Hub

end GattHub
