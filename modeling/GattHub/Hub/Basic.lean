import GattHub.Hub.Request

/-! The hub: any number of central managers over one host, with one source of attribute
identities. Each request and each report is one step. -/

namespace GattHub

structure Hub (H : Handles) where
  settings : Settings
  centrals : Table CentralId (Central H)
  /-- The identity for the next manager that the host opens. -/
  next : CentralId
  ids : IdSource

namespace Hub

variable {H : Handles}

def new (settings : Settings) : Hub H := ⟨settings, ∅, ⟨1⟩, .initial⟩

def centralIds (h : Hub H) : List CentralId := h.centrals.keys.mergeSort (·.raw ≤ ·.raw)

def central (h : Hub H) (c : CentralId) : Except Rejection (Central H) :=
  match h.centrals.get? c with
  | some central => .ok central
  | none => .error (.unknownCentral c)

/-- Opens a manager. Its identity is used up only if the host opens its side. -/
def allocate (answers : Answers H) (h : Hub H) : Response H (Hub H) CentralId :=
  match answers.refusal h.next .openCentral with
  | some r => ⟨h, .error (.refused r), [.call h.next .openCentral (some r)]⟩
  | none =>
    ⟨{ h with centrals := h.centrals.insert h.next (.new h.next), next := ⟨h.next.raw + 1⟩ },
      .ok h.next, [.call h.next .openCentral none, .log (.allocated h.next)]⟩

/-- Closes a manager, taking its peers in the given order. -/
def destroyIn (order : Central H → List PeerId) (answers : Answers H) (h : Hub H)
    (c : CentralId) : Response H (Hub H) Unit :=
  match h.central c with
  | .error reason => ⟨h, .error reason, []⟩
  | .ok central =>
    ⟨{ h with centrals := h.centrals.erase c }, .ok (),
      central.teardown answers (order central) ++ [.log (.destroyed c)]⟩

/-- Closes every manager, in ascending order. -/
def shutdownIn (order : Central H → List PeerId) (answers : Answers H) (h : Hub H) :
    Step H (Hub H) :=
  h.centralIds.foldl (fun s c =>
    let r := s.state.destroyIn order answers c
    ⟨r.state, s.effects ++ r.effects⟩) ⟨h, []⟩

def trackingOrder (c : Central H) : List PeerId := c.peers.keys

def destroy (answers : Answers H) (h : Hub H) (c : CentralId) : Response H (Hub H) Unit :=
  h.destroyIn trackingOrder answers c

def shutdown (answers : Answers H) (h : Hub H) : Step H (Hub H) :=
  h.shutdownIn trackingOrder answers

def withCentral {α : Type} (h : Hub H) (c : CentralId)
    (f : Central H → Response H (Central H) α) : Response H (Hub H) α :=
  match h.central c with
  | .error reason => ⟨h, .error reason, []⟩
  | .ok central =>
    let r := f central
    ⟨{ h with centrals := h.centrals.insert c r.state }, r.result, r.effects⟩

def peer (h : Hub H) (c : CentralId) (p : PeerId) : Except Rejection (Peer H) :=
  (h.central c).bind (·.peer p)

def answer (h : Hub H) : Query PeerId → Except Rejection Reply
  | .centrals => .ok (.centrals h.centralIds)
  | .central c => (h.central c).map fun central => .central central.info
  | .scanning c => (h.central c).map fun central => .scanning central.info.scanning
  | .peer c p => (h.peer c p).map fun peer => .peer peer.info
  | .linkState c p => (h.peer c p).map fun peer => .linkState peer.info.state
  | .rssi c p => (h.peer c p).map fun peer => .rssi peer.info.rssi
  | .services c p => (h.peer c p).map fun peer => .services peer.tree.serviceList
  | .characteristics c p id => (h.peer c p).bind fun peer =>
    listed .characteristics (peer.tree.characteristicsOf id)
  | .descriptors c p id => (h.peer c p).bind fun peer =>
    listed .descriptors (peer.tree.descriptorsOf id)
where
  listed {α : Type} (reply : List α → Reply) : Except Gatt.Unresolved (List α) →
      Except Rejection Reply
    | .ok items => .ok (reply items)
    | .error u => .error (.ofUnresolved u)

/-- The reply to a request, given what was asked for. -/
def reply {α : Type} (r : Response H (Hub H) α) (f : α → Reply) : Response H (Hub H) Reply :=
  ⟨r.state, r.result.map f, r.effects⟩

/-- Enters a rejection into the journal. -/
def noting {α : Type} (c : CentralId) (p : PeerId) (r : Response H (Hub H) α) :
    Response H (Hub H) α :=
  match r.result with
  | .ok _ => r
  | .error reason => { r with effects := r.effects ++ [.log (.rejected p c reason)] }

def request (answers : Answers H) (h : Hub H) : Request PeerId → Response H (Hub H) Reply
  | .allocate => reply (h.allocate answers) .allocated
  | .destroy c => reply (h.destroy answers c) fun _ => .done
  | .scan c allowDuplicates =>
    reply (h.withCentral c (·.startScan answers allowDuplicates)) fun _ => .done
  | .stopScan c =>
    reply (h.withCentral c fun central =>
      let s := central.stopScan answers
      ⟨s.state, .ok (), s.effects⟩) fun _ => .done
  | .forget c p => noting c p (reply (h.withCentral c (·.forget p)) fun _ => .done)
  | .act c p action =>
    noting c p (reply (h.withCentral c (·.withPeer answers p (·.perform answers action)))
      fun _ => .done)
  | .attMtu c p => reply (h.withCentral c (·.withPeer answers p (·.attMtu answers))) .mtu
  | .query q => ⟨h, h.answer q, []⟩

def receive (h : Hub H) (c : CentralId) (report : Report H) : Step H (Hub H) :=
  match h.centrals.get? c with
  | none => ⟨h, [.log (.misrouted c report)]⟩
  | some central =>
    let s := central.receive h.settings h.ids report
    ⟨{ h with centrals := h.centrals.insert c s.state.1, ids := s.state.2 }, s.effects⟩

end Hub

end GattHub
