import GattHub.Effect

/-! A host stack with a state of its own: how it answers, and what a call does to it. -/

namespace GattHub

/-- What a call does to the host: its new state, the reports that it posts before the call
returns, and its lines in the journal. -/
structure Acceptance (H : Handles) (σ : Type) where
  state : σ
  posts : List (CentralId × Report H)
  lines : List LogLine

structure HostStack (H : Handles) (σ : Type) where
  /-- The answers for one step, which depend on the state before it. -/
  answers : σ → Answers H
  accept : σ → CentralId → HostCall H → Option Refusal → Acceptance H σ

end GattHub
