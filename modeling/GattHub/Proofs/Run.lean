import GattHub.Worker.Basic
import Mathlib.Data.List.Induction

/-! Runs of a hub: messages taken one after the other, each with the answers that the host has
for it. Whatever a worker does over whatever host is such a run. -/

namespace GattHub

/-- A host whose objects are plain numbers. -/
abbrev Handles.numbers : Handles := ⟨Nat, Nat, Nat, Nat⟩

/-- A host that knows every peer and turns nothing down. -/
def Answers.agreeing : Answers .numbers := ⟨fun _ _ => none, fun _ _ => some 0, fun _ _ => none⟩

/-- A message, with the answers of the host while it is handled. -/
inductive Move (H : Handles) where
  | request (answers : Answers H) (r : Request PeerId)
  | report (c : CentralId) (r : Report H)
  | shutdown (answers : Answers H)

/-- A hub and the message that it takes. -/
structure Moment (H : Handles) where
  hub : Hub H
  move : Move H

variable {H : Handles}

namespace Moment

/-- What the message does. No hub is left after a shutdown. -/
def step (t : Moment H) : Step H (Option (Hub H)) :=
  match t.move with
  | .request answers r => ⟨some (t.hub.request answers r).state, (t.hub.request answers r).effects⟩
  | .report c r => ⟨some (t.hub.receive c r).state, (t.hub.receive c r).effects⟩
  | .shutdown answers => ⟨none, (t.hub.shutdown answers).effects⟩

def after (t : Moment H) : Option (Hub H) := t.step.state

def effects (t : Moment H) : List (Effect H) := t.step.effects

def notices (t : Moment H) : List Notice := Effect.notices t.effects

/-- Whether the message is a request to open a manager that the host agrees to. -/
def allocates (t : Moment H) : Bool :=
  match t.move with
  | .request answers .allocate => (t.hub.allocate answers).result.isOk
  | _ => false

/-- What is asked of a peer by the message, if it is a request that is accepted. -/
def accepted? (t : Moment H) (c : CentralId) (p : PeerId) : Option PeerAction :=
  match t.move with
  | .request answers (.act c' p' action) =>
    if c' = c ∧ p' = p ∧ (t.hub.request answers (.act c' p' action)).result.isOk then some action
    else none
  | _ => none

end Moment

/-- How far a run has come: the moments that are past, and the hub unless it was shut down. -/
structure Run (H : Handles) where
  past : List (Moment H)
  hub : Option (Hub H)

namespace Run

def start (settings : Settings) : Run H := ⟨[], some (.new settings)⟩

/-- Takes a message; once the hub is gone nothing comes of it. -/
def take (r : Run H) (m : Move H) : Run H :=
  match r.hub with
  | some h => ⟨r.past ++ [⟨h, m⟩], (Moment.mk h m).after⟩
  | none => r

/-- The run that takes these messages from the start. -/
def of (settings : Settings) (moves : List (Move H)) : Run H :=
  moves.foldl take (start settings)

def effects (r : Run H) : List (Effect H) := r.past.flatMap Moment.effects

def allocations (r : Run H) : Nat := r.past.countP Moment.allocates

theorem take_some {r : Run H} {h : Hub H} (hr : r.hub = some h) (m : Move H) :
    r.take m = ⟨r.past ++ [⟨h, m⟩], (Moment.mk h m).after⟩ := by
  simp [take, hr]

theorem take_none {r : Run H} (hr : r.hub = none) (m : Move H) : r.take m = r := by
  simp [take, hr]

theorem of_append_singleton (settings : Settings) (ms : List (Move H)) (m : Move H) :
    of settings (ms ++ [m]) = (of settings ms).take m := by
  simp [of]

/-- What holds at the start and is kept by every message holds all along. -/
theorem of_induction {P : Run H → Prop} (settings : Settings) (hstart : P (start settings))
    (hstep : ∀ ms h m, (of settings ms).hub = some h → P (of settings ms) →
      P ⟨(of settings ms).past ++ [⟨h, m⟩], (Moment.mk h m).after⟩) (ms : List (Move H)) :
    P (of settings ms) := by
  induction ms using List.reverseRecOn with
  | nil => exact hstart
  | append_singleton ms m ih =>
    rw [of_append_singleton]
    cases hr : (of settings ms).hub with
    | none => rwa [take_none hr]
    | some h =>
      rw [take_some hr]
      exact hstep ms h m hr ih

/-- A property of hubs that every message keeps holds of the hub all along, and of the hub of
every moment that is past. -/
theorem forall_hub {P : Hub H → Prop} (settings : Settings) (hnew : P (.new settings))
    (hstep : ∀ (t : Moment H) h, P t.hub → t.after = some h → P h) (ms : List (Move H)) :
    (∀ t ∈ (of settings ms).past, P t.hub) ∧ ∀ h, (of settings ms).hub = some h → P h := by
  refine of_induction (P := fun r => (∀ t ∈ r.past, P t.hub) ∧ ∀ h, r.hub = some h → P h) settings
    ⟨nofun, ?_⟩ ?_ ms
  · rintro h ⟨⟩
    exact hnew
  · rintro ms h m hr ⟨hpast, hhub⟩
    refine ⟨fun t ht => ?_, fun h' hh' => hstep ⟨h, m⟩ h' (hhub h hr) hh'⟩
    rcases List.mem_append.mp ht with ht | ht
    · exact hpast t ht
    · rw [List.mem_singleton.mp ht]
      exact hhub h hr

/-- Every moment that is past was reached by a shorter run. -/
theorem exists_of_past_eq (settings : Settings) (ms : List (Move H)) {ts us : List (Moment H)}
    {t : Moment H} (h : (of settings ms).past = ts ++ t :: us) :
    ∃ ms', (of settings ms').past = ts ∧ (of settings ms').hub = some t.hub := by
  revert ts t us
  refine of_induction (P := fun r => ∀ {ts us t}, r.past = ts ++ t :: us →
    ∃ ms', (of settings ms').past = ts ∧ (of settings ms').hub = some t.hub) settings ?_ ?_ ms
  · intro ts us t h
    simp [start] at h
  · intro ms h m hr ih ts us t heq
    cases us using List.reverseRecOn with
    | nil =>
      obtain ⟨hts, ht⟩ := List.append_inj' heq rfl
      cases ht
      exact ⟨ms, hts, hr⟩
    | append_singleton us u =>
      rw [← List.cons_append, ← List.append_assoc] at heq
      exact ih (List.append_inj' heq rfl).1

/-- A worker is where a run is: the hub is the same, and so are the calls and notices so far. -/
structure Follows {σ : Type} (r : Run H) (t : Turn H σ) : Prop where
  hub_eq : t.worker.hub = r.hub
  calls_eq : Effect.calls (Occurrence.effects t.occurrences) = Effect.calls r.effects
  notices_eq : Occurrence.notices t.occurrences = Effect.notices r.effects

end Run

namespace Occurrence

theorem effects_append (os os' : List (Occurrence H)) :
    effects (os ++ os') = effects os ++ effects os' := List.filterMap_append

theorem effects_map_line (ls : List LogLine) :
    effects (ls.map (Occurrence.line (H := H))) = [] := by
  simp [effects, List.filterMap_map, Function.comp_def, effect?]

end Occurrence

namespace Turn

variable {σ : Type}

theorem post_hub (w : Worker H) (m : Message H) : (w.post m).hub = w.hub := by
  simp only [Worker.post]
  split <;> rfl

theorem foldl_post_hub (posts : List (CentralId × Report H)) (w : Worker H) :
    (posts.foldl (fun w p => w.post (.report p.1 p.2)) w).hub = w.hub := by
  induction posts generalizing w with
  | nil => rfl
  | cons p posts ih => rw [List.foldl_cons, ih, post_hub]

theorem deliver_hub (host : HostStack H σ) (t : Turn H σ) (e : Effect H) :
    (t.deliver host e).worker.hub = t.worker.hub := by
  cases e with
  | call c k refusal => exact foldl_post_hub _ _
  | notice n => rfl
  | log l => rfl

theorem effects_deliver (host : HostStack H σ) (t : Turn H σ) (e : Effect H) :
    Occurrence.effects (t.deliver host e).occurrences =
      Occurrence.effects t.occurrences ++ [e] := by
  cases e with
  | call c k refusal =>
    simp only [deliver, Occurrence.effects_append]
    rw [← List.singleton_append, Occurrence.effects_append, Occurrence.effects_map_line]
    rfl
  | notice n => simp [deliver, log, Occurrence.effects, Occurrence.effect?]
  | log l => simp [deliver, log, Occurrence.effects, Occurrence.effect?]

theorem foldl_deliver (host : HostStack H σ) (es : List (Effect H)) (t : Turn H σ) :
    (es.foldl (deliver host) t).worker.hub = t.worker.hub ∧
      Occurrence.effects (es.foldl (deliver host) t).occurrences =
        Occurrence.effects t.occurrences ++ es := by
  induction es generalizing t with
  | nil => simp
  | cons e es ih =>
    obtain ⟨hhub, heff⟩ := ih (t.deliver host e)
    rw [List.foldl_cons, hhub, heff, deliver_hub, effects_deliver]
    simp

theorem effects_log (t : Turn H σ) (os : List (Occurrence H)) :
    Occurrence.effects (t.log os).occurrences =
      Occurrence.effects t.occurrences ++ Occurrence.effects os :=
  Occurrence.effects_append _ _

theorem advance_spec (host : HostStack H σ) (t : Turn H σ) (s : Step H (Hub H)) :
    (t.advance host s).worker.hub = some s.state ∧
      Occurrence.effects (t.advance host s).occurrences =
        Occurrence.effects t.occurrences ++ s.effects :=
  foldl_deliver host s.effects _

end Turn

namespace Run

variable {σ : Type}

theorem Follows.of_effects {r : Run H} {t t' : Turn H σ} {h : Hub H} (hf : Follows r t)
    (hr : r.hub = some h) (m : Move H) {l : List (LogEntry H)}
    (hhub : t'.worker.hub = (Moment.mk h m).after)
    (heff : Occurrence.effects t'.occurrences =
      Occurrence.effects t.occurrences ++ (Moment.mk h m).effects ++ l.map .log) :
    Follows (r.take m) t' := by
  have hcalls : Effect.calls (l.map (Effect.log (H := H))) = [] := by
    simp [Effect.calls, List.filterMap_map, Function.comp_def, Effect.call?]
  have hnotices : Effect.notices (l.map (Effect.log (H := H))) = [] := by
    simp [Effect.notices, List.filterMap_map, Function.comp_def, Effect.notice?]
  rw [take_some hr]
  refine ⟨hhub, ?_, ?_⟩
  · have hc := hf.calls_eq
    simp only [Effect.calls] at hc hcalls ⊢
    simp [effects, heff, hc, hcalls]
  · have hn := hf.notices_eq
    simp only [Occurrence.notices, Effect.notices] at hn hnotices ⊢
    simp [effects, heff, hn, hnotices]

theorem Follows.log {r : Run H} {t : Turn H σ} (hf : Follows r t) {os : List (Occurrence H)}
    (hos : ∀ e ∈ Occurrence.effects os, ∃ l, e = .log l) : Follows r (t.log os) := by
  have hcalls : (Occurrence.effects os).filterMap Effect.call? = [] := by
    apply List.filterMap_eq_nil_iff.mpr
    intro e he
    obtain ⟨l, rfl⟩ := hos e he
    rfl
  have hnotices : (Occurrence.effects os).filterMap Effect.notice? = [] := by
    apply List.filterMap_eq_nil_iff.mpr
    intro e he
    obtain ⟨l, rfl⟩ := hos e he
    rfl
  refine ⟨hf.hub_eq, ?_, ?_⟩
  · rw [Turn.effects_log, ← hf.calls_eq]
    simp [Effect.calls, hcalls]
  · rw [Occurrence.notices, Turn.effects_log, ← hf.notices_eq]
    simp [Occurrence.notices, Effect.notices, hnotices]

theorem Follows.take {r : Run H} {t : Turn H σ} (hf : Follows r t) (host : HostStack H σ)
    (m : Message H) : ∃ moves : List (Move H), Follows (moves.foldl Run.take r) (t.take host m) := by
  cases hh : t.worker.hub with
  | none =>
    refine ⟨[], ?_⟩
    simp only [Turn.take, hh]
    apply hf.log
    cases m <;> simp [Turn.dismissed, Occurrence.effects, Occurrence.effect?]
  | some h =>
    have hr : r.hub = some h := by rw [← hf.hub_eq, hh]
    cases m with
    | start =>
      refine ⟨[], ?_⟩
      simp only [Turn.take, hh]
      apply hf.log
      simp [Occurrence.effects, Occurrence.effect?]
    | request ticket q =>
      refine ⟨[.request (host.answers t.host) q], ?_⟩
      simp only [Turn.take, hh, List.foldl_cons, List.foldl_nil]
      obtain ⟨hhub, heff⟩ := Turn.advance_spec host t
        ⟨(h.request (host.answers t.host) q).state, (h.request (host.answers t.host) q).effects⟩
      refine hf.of_effects hr _ (l := []) hhub ?_
      rw [Turn.effects_log, heff]
      simp [Moment.effects, Moment.step, Occurrence.effects, Occurrence.effect?]
    | report c q =>
      refine ⟨[.report c q], ?_⟩
      simp only [Turn.take, hh, List.foldl_cons, List.foldl_nil]
      obtain ⟨hhub, heff⟩ := Turn.advance_spec host t (h.receive c q)
      refine hf.of_effects hr _ (l := []) hhub ?_
      rw [heff]
      simp [Moment.effects, Moment.step]
    | shutdown =>
      refine ⟨[.shutdown (host.answers t.host)], ?_⟩
      simp only [Turn.take, hh, List.foldl_cons, List.foldl_nil, Turn.stop]
      obtain ⟨-, heff⟩ := Turn.advance_spec host t (h.shutdown (host.answers t.host))
      refine hf.of_effects hr _ (l := [.stopped]) rfl ?_
      rw [Turn.effects_log]
      simp only [heff]
      simp [Moment.effects, Moment.step, Occurrence.effects, Occurrence.effect?]

theorem Follows.foldl_take {r : Run H} (host : HostStack H σ) (ms : List (Message H))
    {t : Turn H σ} (hf : Follows r t) :
    ∃ moves : List (Move H), Follows (moves.foldl Run.take r) (ms.foldl (Turn.take host) t) := by
  induction ms generalizing r t with
  | nil => exact ⟨[], hf⟩
  | cons m ms ih =>
    obtain ⟨first, hfirst⟩ := hf.take host m
    obtain ⟨rest, hrest⟩ := ih hfirst
    exact ⟨first ++ rest, by rwa [List.foldl_append]⟩

theorem Follows.round {r : Run H} {t : Turn H σ} (hf : Follows r t) (host : HostStack H σ) :
    ∃ moves : List (Move H), Follows (moves.foldl Run.take r) (t.round host) :=
  Follows.foldl_take host t.worker.queue ⟨hf.hub_eq, hf.calls_eq, hf.notices_eq⟩

theorem follows_start (settings : Settings) (host : σ) :
    Follows (Run.start (H := H) settings) ⟨.start settings, host, []⟩ := ⟨rfl, rfl, rfl⟩

end Run

end GattHub
