import GattHub.Proofs.Succession

/-! Whom a report reaches. With each call to open its side the host gets a handle to report through,
which names the manager that is to be. The name is used up only if the host does open, so the handle
of a call that it turned down names the manager of the next call that it does not. -/

namespace GattHub

variable {H : Handles}

namespace Moment

variable {t : Moment H} {c : CentralId}

/-- The host is asked to open its side. What it reports through the handle that comes with the call
is reported to the identity that the call names. -/
def Opens (t : Moment H) : Prop := ∃ answers, t.move = .request answers .allocate

/-- The handle names the identity that is next. -/
theorem calls_of_opens (ht : t.Opens) : Effect.calls t.effects = [(t.hub.next, .openCentral)] := by
  obtain ⟨h, m⟩ := t
  obtain ⟨answers, rfl⟩ := ht
  cases hr : answers.refusal h.next .openCentral <;>
    simp [effects, step, Hub.request, Hub.reply, Hub.allocate, hr, Effect.calls, Effect.call?]

theorem opens_of_allocates (ht : t.allocates = true) : t.Opens := by
  obtain ⟨h, m⟩ := t
  cases m with
  | report | shutdown => cases ht
  | request answers r =>
    cases r with
    | allocate => exact ⟨answers, rfl⟩
    | _ => cases ht

/-- A manager that was not there before the moment is there after it only if it was opened. -/
theorem absent_after (hc : t.hub.centrals.get? c = none)
    (hnot : t.allocates = true → t.hub.next ≠ c) {h : Hub H} (ha : t.after = some h) :
    h.centrals.get? c = none := by
  cases hm : h.centrals.get? c with
  | none => rfl
  | some m =>
    rcases (t.manages ha).central hm with ⟨m₀, hm₀, -⟩ | ⟨hyes, hnext, -⟩
    · rw [hc] at hm₀
      cases hm₀
    · exact absurd hnext.symm (hnot hyes)

theorem opened_after (ht : t.allocates = true) :
    ∃ h, t.after = some h ∧ h.centrals.get? t.hub.next = some (.new t.hub.next) := by
  obtain ⟨answers, hm⟩ := opens_of_allocates ht
  obtain ⟨h, m⟩ := t
  cases hm
  cases hr : answers.refusal h.next .openCentral with
  | some r => simp [allocates, Hub.allocate, hr, Except.isOk, Except.toBool] at ht
  | none =>
    refine ⟨_, rfl, ?_⟩
    simp [Hub.request, Hub.reply, Hub.allocate, hr, Table.get?_insert]

end Moment

namespace Run

variable (settings : Settings) (ms : List (Move H))

/-- A manager that is not there comes to be there only by being opened. -/
theorem absent_of_unopened {c : CentralId} {ts us : List (Moment H)} {t : Moment H}
    (hpast : (of settings ms).past = ts ++ t :: us) (hc : t.hub.centrals.get? c = none)
    (hnot : ∀ u ∈ t :: us, u.allocates = true → u.hub.next ≠ c) :
    ∀ h, (of settings ms).hub = some h → h.centrals.get? c = none := by
  revert ts t us
  refine of_induction (P := fun r => ∀ {ts us t}, r.past = ts ++ t :: us →
    t.hub.centrals.get? c = none → (∀ u ∈ t :: us, u.allocates = true → u.hub.next ≠ c) →
    ∀ h, r.hub = some h → h.centrals.get? c = none) settings ?_ ?_ ms
  · intro ts us t hpast
    simp [start] at hpast
  · intro ms h m hr ih ts us t hpast hc hnot h' ha
    rcases Gatt.append_singleton_eq_append_cons.mp hpast with ⟨-, rfl, -⟩ | ⟨rest, hprior, rfl⟩
    · exact Moment.absent_after hc (hnot _ List.mem_cons_self) ha
    · rw [← List.cons_append] at hnot
      have hbefore := ih hprior hc (fun u hu => hnot u (List.mem_append_left _ hu)) h hr
      exact Moment.absent_after (t := ⟨h, m⟩) hbefore (hnot _ (by simp)) ha

variable {settings ms}

theorem numbered_at {ts us : List (Moment H)} {t : Moment H}
    (hpast : (of settings ms).past = ts ++ t :: us) :
    t.hub.Numbered (ts.countP Moment.allocates) := by
  obtain ⟨ms', hts, hr⟩ := exists_of_past_eq settings ms hpast
  have hn := numbered settings ms' t.hub hr
  rwa [allocations, hts] at hn

/-- With fewer managers opened than there are identities, the next identity is not one that was
given out before. -/
theorem next_ne_of_allocates {ts us vs : List (Moment H)} {t u : Moment H}
    (hbound : (of settings ms).allocations < UInt64.size)
    (hpast : (of settings ms).past = ts ++ t :: (us ++ u :: vs)) (ht : t.allocates = true) :
    u.hub.next ≠ t.hub.next := by
  have hlater : (of settings ms).past = (ts ++ t :: us) ++ u :: vs := by simp [hpast]
  have hu : u.hub.Numbered ((ts ++ t :: us).countP Moment.allocates) := numbered_at hlater
  have hcount : ts.countP Moment.allocates < (ts ++ t :: us).countP Moment.allocates := by
    rw [List.countP_append, List.countP_cons_of_pos ht]
    omega
  have hle : (ts ++ t :: us).countP Moment.allocates ≤ (of settings ms).allocations := by
    rw [allocations, hlater]
    exact allocations_le (x := none) (y := none)
  rw [(numbered_at hpast).next_eq]
  exact hu.next_ne (by omega) hcount

/-- What is reported through the handle of a call to open reaches the manager of the first call that
the host agreed to, counting from this one: this very call if the host agreed to it, else a later
one. Without such a call, and once the manager is gone, it is dropped. -/
theorem handle_reaches_next_opened (hbound : (of settings ms).allocations < UInt64.size)
    {ts us : List (Moment H)} {t : Moment H} (hpast : (of settings ms).past = ts ++ t :: us)
    (ht : t.Opens) :
    let c := t.hub.next
    Effect.calls t.effects = [(c, .openCentral)] ∧
    ((∀ u ∈ t :: us, u.allocates = false) → ∀ h, (of settings ms).hub = some h →
      ∀ r, h.receive c r = ⟨h, [.log (.misrouted c r)]⟩) ∧
    ∀ pre g post, t :: us = pre ++ g :: post → (∀ u ∈ pre, u.allocates = false) →
      g.allocates = true →
      (g.hub.next = c ∧ ∃ h, g.after = some h ∧ h.centrals.get? c = some (.new c)) ∧
      (∀ u ∈ post, u.allocates = true → u.hub.next ≠ c) ∧
      ((∃ u ∈ post, u.hub.centrals.get? c = none) → ∀ h, (of settings ms).hub = some h →
        ∀ r, h.receive c r = ⟨h, [.log (.misrouted c r)]⟩) := by
  intro c
  refine ⟨Moment.calls_of_opens ht, fun hnone h hh r => ?_, fun pre g post hsplit hpre hg => ?_⟩
  · have hfree : t.hub.centrals.get? c = none := by
      refine (numbered_at hpast).get?_next (Nat.lt_of_le_of_lt ?_ hbound)
      rw [allocations, hpast]
      exact allocations_le (x := none) (y := none)
    refine Hub.receive_absent (absent_of_unopened settings ms hpast hfree (fun u hu hyes => ?_) h hh) r
    rw [hnone u hu] at hyes
    cases hyes
  · have hpast' : (of settings ms).past = (ts ++ pre) ++ g :: post := by
      rw [hpast, hsplit, List.append_assoc]
    have hsame : g.hub.next = c := by
      have hzero : pre.countP Moment.allocates = 0 :=
        List.countP_eq_zero.mpr fun u hu => by simp [hpre u hu]
      have hnext := (numbered_at hpast').next_eq
      rw [List.countP_append, hzero, Nat.add_zero] at hnext
      exact hnext.trans (numbered_at hpast).next_eq.symm
    have hother : ∀ u ∈ post, u.allocates = true → u.hub.next ≠ c := by
      intro u hu _
      obtain ⟨us₁, us₂, rfl⟩ := List.append_of_mem hu
      rw [← hsame]
      exact next_ne_of_allocates hbound hpast' hg
    refine ⟨⟨hsame, hsame ▸ Moment.opened_after hg⟩, hother, ?_⟩
    rintro ⟨u, hu, hgone⟩ h hh r
    obtain ⟨us₁, us₂, rfl⟩ := List.append_of_mem hu
    rw [← List.cons_append, ← List.append_assoc] at hpast'
    refine Hub.receive_absent (absent_of_unopened settings ms hpast' hgone (fun v hv => ?_) h hh) r
    exact hother v (List.mem_append_right _ hv)

def turnedDown : Moment .numbers := ⟨.new .default, .request refusing .allocate⟩

/-- The next call, to which the host agrees. -/
def agreedTo : Moment .numbers :=
  ⟨(of .default [turnedDown.move]).hub.getD (.new .default), .request .agreeing .allocate⟩

def misledHub : Hub .numbers :=
  (of .default [turnedDown.move, agreedTo.move]).hub.getD (.new .default)

/-- The host reports through the handle of the call that it turned down. The manager of the next
call takes the report in: it is on from then on, and this is made known. -/
theorem handle_reaches_next_opened_refused :
    let ms := [turnedDown.move, agreedTo.move]
    let told := misledHub.receive turnedDown.hub.next (.stateChanged true "on")
    (of .default ms).allocations < UInt64.size ∧ turnedDown.Opens ∧
      (of .default ms).past = [turnedDown, agreedTo] ∧ (of .default ms).hub = some misledHub ∧
      turnedDown.allocates = false ∧ agreedTo.allocates = true ∧
      agreedTo.hub.next = turnedDown.hub.next ∧
      (misledHub.centrals.get? agreedTo.hub.next).map (·.poweredOn) = some false ∧
      (told.state.centrals.get? agreedTo.hub.next).map (·.poweredOn) = some true ∧
      Effect.notices told.effects = [.stateChanged agreedTo.hub.next true "on"] := by
  intro ms told
  have hbound : (of .default ms).allocations < UInt64.size := by decide
  have hopens : turnedDown.Opens := ⟨refusing, rfl⟩
  have hpast : (of .default ms).past = [] ++ turnedDown :: [agreedTo] := rfl
  have hrefused : turnedDown.allocates = false := rfl
  obtain ⟨-, -, hnext⟩ := handle_reaches_next_opened hbound hpast hopens
  obtain ⟨⟨hsame, -⟩, -⟩ := hnext [turnedDown] agreedTo [] rfl (by simp [hrefused]) rfl
  exact ⟨hbound, hopens, hpast, rfl, hrefused, rfl, hsame, rfl, rfl, rfl⟩

end Run

end GattHub
