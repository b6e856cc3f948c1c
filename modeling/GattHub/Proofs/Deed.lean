import GattHub.Proofs.ScanEffects

/-! What others see of a step: the calls to the host and the notices, in the order in which they
happen. How the host answers a call is no part of it, nor is the journal. -/

namespace GattHub

inductive Deed (H : Handles) where
  | call (c : CentralId) (k : HostCall H)
  | notice (n : Notice)
  deriving DecidableEq

variable {H : Handles}

namespace Deed

def call? : Deed H → Option (CentralId × HostCall H)
  | call c k => some (c, k)
  | notice _ => none

def notice? : Deed H → Option Notice
  | call .. => none
  | notice n => some n

/-- The manager on whose behalf it is done. -/
def central : Deed H → CentralId
  | call c _ => c
  | notice n => n.central

end Deed

/-- What the caller hears, if the message is a request. -/
def Moment.reply? (t : Moment H) : Option (Except Rejection Reply) :=
  match t.move with
  | .request answers r => some (t.hub.request answers r).result
  | .report .. | .shutdown _ => none

namespace Effect

def deed? : Effect H → Option (Deed H)
  | call c k _ => some (.call c k)
  | notice n => some (.notice n)
  | log _ => none

def deeds (es : List (Effect H)) : List (Deed H) := es.filterMap deed?

@[simp] theorem deeds_nil : deeds ([] : List (Effect H)) = [] := rfl

@[simp] theorem deeds_append (es es' : List (Effect H)) :
    deeds (es ++ es') = deeds es ++ deeds es' := List.filterMap_append

@[simp] theorem deeds_call (c : CentralId) (k : HostCall H) (r : Option Refusal)
    (es : List (Effect H)) : deeds (.call c k r :: es) = .call c k :: deeds es := rfl

@[simp] theorem deeds_notice (n : Notice) (es : List (Effect H)) :
    deeds (.notice n :: es) = .notice n :: deeds es := rfl

@[simp] theorem deeds_log (l : LogEntry H) (es : List (Effect H)) :
    deeds (.log l :: es) = deeds es := rfl

@[simp] theorem deeds_map_log (ls : List (LogEntry H)) : deeds (ls.map Effect.log) = [] := by
  simp [deeds, List.filterMap_map, Function.comp_def, deed?]

theorem deeds_flatMap {α : Type} (l : List α) (f : α → List (Effect H)) :
    deeds (l.flatMap f) = l.flatMap fun a => deeds (f a) := List.filterMap_flatMap

theorem calls_eq_filterMap (es : List (Effect H)) : calls es = (deeds es).filterMap Deed.call? := by
  rw [deeds, List.filterMap_filterMap, calls]
  congr 1
  funext e
  cases e <;> rfl

theorem notices_eq_filterMap (es : List (Effect H)) :
    notices es = (deeds es).filterMap Deed.notice? := by
  rw [deeds, List.filterMap_filterMap, notices]
  congr 1
  funext e
  cases e <;> rfl

end Effect

end GattHub
