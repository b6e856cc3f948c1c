import GattHub.Desk
import GattHub.Proofs.Spelling
import GattHub.Proofs.Succession

/-! Peers are named by texts from outside and by identities inside. The text is read once, before
anything is queued, and only the identity goes on; so how an identity is spelled cannot be told
from what follows, and a text that names no peer goes back to the caller as it came. -/

namespace GattHub

variable {H : Handles} {π : Type} {s : String} {p : PeerId}

/-- The question with the peer that it is about named so. -/
def Query.naming (x : π) : Query Unit → Query π
  | centrals => .centrals
  | central c => .central c
  | scanning c => .scanning c
  | peer c _ => .peer c x
  | linkState c _ => .linkState c x
  | rssi c _ => .rssi c x
  | services c _ => .services c x
  | characteristics c _ service => .characteristics c x service
  | descriptors c _ characteristic => .descriptors c x characteristic

/-- The request with the peer that it is put to named so. -/
def Request.naming (x : π) : Request Unit → Request π
  | allocate => .allocate
  | destroy c => .destroy c
  | scan c allowDuplicates => .scan c allowDuplicates
  | stopScan c => .stopScan c
  | forget c _ => .forget c x
  | act c _ action => .act c x action
  | attMtu c _ => .attMtu c x
  | query q => .query (q.naming x)

theorem Query.resolve_naming (hp : PeerId.parse? s = some p) (q : Query Unit) :
    (q.naming s).resolve = .ok (q.naming p) := by
  cases q <;> simp [naming, resolve, resolve.named, hp, Except.map]

namespace Request

theorem subject?_naming (x : π) (r : Request Unit) :
    (r.naming x).subject? = r.subject?.map fun e => (e.1, e.2.map fun _ => x) := by
  cases r with
  | query q => cases q <;> rfl
  | _ => rfl

theorem resolve_naming (hp : PeerId.parse? s = some p) (r : Request Unit) :
    (r.naming s).resolve = .ok (r.naming p) := by
  cases r with
  | query q => simp [naming, resolve, Query.resolve_naming hp, Except.map]
  | _ => simp [naming, resolve, Query.resolve.named, hp, Except.map]

theorem resolve_naming_malformed (hp : PeerId.parse? s = none) {r : Request Unit} {c : CentralId}
    (hr : r.subject? = some (c, some ())) : (r.naming s).resolve = .error (.malformedPeer s) := by
  have hsubject : (r.naming s).subject? = some (c, some s) := by
    rw [subject?_naming, hr]
    rfl
  obtain ⟨f, hresolve, -⟩ := resolve_of_peer hsubject
  rw [hresolve, Query.resolve.named, hp]
  rfl

end Request

section Asking

variable {σ : Type} {r r' : Request String} {reason : Rejection}

/-- What becomes of a request hangs on what its text was read as. -/
theorem Worker.submit_congr (hr : r.resolve = r'.resolve) (w : Worker H) (ticket : Nat) :
    w.submit ticket r = w.submit ticket r' := by
  rw [submit, submit, hr]

theorem Worker.submit_of_error (hr : r.resolve = .error reason) (w : Worker H) (ticket : Nat) :
    w.submit ticket r = .error reason := by
  rw [submit, hr]
  rfl

theorem Desk.ask_congr (hr : r.resolve = r'.resolve) (run : Turn H σ → Turn H σ) (d : Desk H σ) :
    d.ask run r = d.ask run r' := by
  rw [ask, ask, Worker.submit_congr hr]

/-- The desk goes on as if nothing had been asked. -/
theorem Desk.ask_of_error (hr : r.resolve = .error reason) (run : Turn H σ → Turn H σ)
    (d : Desk H σ) :
    d.ask run r = ⟨(d.proceed run).desk, .error reason, (d.proceed run).occurrences⟩ := by
  rw [ask, Worker.submit_of_error hr]

end Asking

namespace PeerId

/-- The texts that name a peer are its written forms, in either case and with white space around
them, the printed text among them. A request that names the peer by any of them becomes the one
request for the peer, so it is taken, answered and carried out as with the printed text. Where a
text names no peer, whoever is asked for it turns the request down with that very text and queues
nothing, also when there is no such manager and no worker. -/
theorem spelling_invisible {σ : Type} (p : PeerId) (s : String) :
    (parse? s = some p ↔ (Text.trim s.toList).map Char.toLower ∈ p.uuid.forms) ∧
      (∀ l t r : List Char, (∀ c ∈ l, Text.isBlank c = true) → (∀ c ∈ r, Text.isBlank c = true) →
        t.map Char.toLower = p.text.toList → parse? (String.ofList (l ++ t ++ r)) = some p) ∧
      (parse? s = some p → ∀ form : Request Unit,
        (form.naming s).resolve = .ok (form.naming p) ∧
          (∀ (w : Worker H) (ticket : Nat),
            w.submit ticket (form.naming s) = w.submit ticket (form.naming p.text)) ∧
          ∀ (run : Turn H σ → Turn H σ) (d : Desk H σ),
            d.ask run (form.naming s) = d.ask run (form.naming p.text)) ∧
      (parse? s = none → ∀ (form : Request Unit) (c : CentralId),
        form.subject? = some (c, some ()) →
          (∀ (w : Worker H) (ticket : Nat),
            w.submit ticket (form.naming s) = .error (.malformedPeer s)) ∧
          ∀ (run : Turn H σ → Turn H σ) (d : Desk H σ), d.ask run (form.naming s) =
            ⟨(d.proceed run).desk, .error (.malformedPeer s), (d.proceed run).occurrences⟩) := by
  refine ⟨parse?_eq_some_iff, fun l t r hl hr ht => parse?_of_spelled hl hr ht,
    fun hs form => ?_, fun hs form c hform => ?_⟩
  · have hread := Request.resolve_naming hs form
    have hsame : (form.naming s).resolve = (form.naming p.text).resolve := by
      rw [hread, Request.resolve_naming (parse?_text p)]
    exact ⟨hread, Worker.submit_congr hsame, Desk.ask_congr hsame⟩
  · have hread := Request.resolve_naming_malformed hs hform
    exact ⟨Worker.submit_of_error hread, Desk.ask_of_error hread⟩

/-- A text in upper case between a tab and a wide blank, put to a desk; and a text that names no
peer, put to one whose worker has stopped. -/
theorem spelling_invisible_spaced :
    let p : PeerId := ⟨.ofNat 0x9f1c3a520d4b4e5a8c2e7b6d1f0a3e94⟩
    let s := "\t9F1C3A52-0D4B-4E5A-8C2E-7B6D1F0A3E94\u3000"
    let d : Desk .numbers Unit := .start .default ()
    parse? s = some p ∧
      d.ask id (.act ⟨1⟩ s .connect) =
        d.ask id (.act ⟨1⟩ "9f1c3a52-0d4b-4e5a-8c2e-7b6d1f0a3e94" .connect) ∧
      parse? " not-a-peer" = none ∧
      ({ d with worker := d.worker.abandon }.ask id (.query (.rssi ⟨7⟩ " not-a-peer"))).answer =
        .error (.malformedPeer " not-a-peer") := by
  intro p s d
  have htext : p.text = "9f1c3a52-0d4b-4e5a-8c2e-7b6d1f0a3e94" := by decide +kernel
  have hlower : "9F1C3A52-0D4B-4E5A-8C2E-7B6D1F0A3E94".toList.map Char.toLower = p.text.toList := by
    decide +kernel
  have hspaced : String.ofList (['\t'] ++ "9F1C3A52-0D4B-4E5A-8C2E-7B6D1F0A3E94".toList ++
      ['\u3000']) = s := by
    decide +kernel
  obtain ⟨-, hread, hsame, -⟩ := @spelling_invisible .numbers Unit p s
  have hspelled : parse? s = some p := by
    rw [← hspaced]
    exact hread ['\t'] _ ['\u3000'] (by simp [Text.isBlank]) (by simp [Text.isBlank]) hlower
  have hmalformed : parse? " not-a-peer" = none := by decide +kernel
  refine ⟨hspelled, ?_, hmalformed, ?_⟩
  · rw [← htext]
    exact (hsame hspelled (.act ⟨1⟩ () .connect)).2.2 id d
  · obtain ⟨-, -, -, hturned⟩ := @spelling_invisible .numbers Unit p " not-a-peer"
    have hanswer := (hturned hmalformed (.query (.rssi ⟨7⟩ ())) ⟨7⟩ rfl).2 id
      { d with worker := d.worker.abandon }
    exact congrArg Outcome.answer hanswer

end PeerId

end GattHub
