import GattHub.Hub.Basic

/-! Everything that callers could find out about a hub by asking. -/

namespace GattHub

structure CharacteristicView where
  characteristic : Gatt.Characteristic
  descriptors : List Gatt.Descriptor
  deriving DecidableEq

structure ServiceView where
  service : Gatt.Service
  characteristics : List CharacteristicView
  deriving DecidableEq

structure PeerView where
  info : PeerInfo
  services : List ServiceView
  deriving DecidableEq

structure CentralView where
  info : CentralInfo
  peers : List PeerView
  deriving DecidableEq

variable {H : Handles}

/-- The attributes that can be listed from the services down. -/
def Gatt.Tree.view {S C D : Type} (t : Gatt.Tree S C D) : List ServiceView :=
  t.serviceList.map fun s =>
    ⟨s, ((t.characteristicsOf s.id).toOption.getD []).map fun c =>
      ⟨c, (t.descriptorsOf c.id).toOption.getD []⟩⟩

def Peer.view (p : Peer H) : PeerView := ⟨p.info, p.tree.view⟩

def Central.view (c : Central H) : CentralView :=
  ⟨c.info, (c.info.peers.filterMap c.peers.get?).map Peer.view⟩

def Hub.view (h : Hub H) : List CentralView :=
  (h.centralIds.filterMap h.centrals.get?).map Central.view

end GattHub
