import FlatImage.Proofs.Patch
import FlatImage.Writer

/-!
# Contracts of computations on a writer

`Ends m w Q E` says how a computation ends from one writer: either with a result and a writer in
`Q`, or with a fault and a writer in `E`. Both halves are stated together because a failed
computation leaves its writer behind, and what is left there is part of what it promises.

A destination that refuses calls is never assumed away. `Wrote` says what has been put when a
computation succeeded, and `Stopped` what has been put when one failed, and why it failed.
-/

namespace FlatImage.Writer

/-- A computation ends from a writer in one of two ways. -/
def Ends {α : Type} (m : Writing α) (w : Writer) (Q : α → Writer → Prop)
    (E : Fault RunError → Writer → Prop) : Prop :=
  match m.run.run w with
  | (.ok a, w') => Q a w'
  | (.error e, w') => E e w'

namespace Ends

variable {α β : Type} {m : Writing α} {f : α → Writing β} {w : Writer}
variable {Q Q' : α → Writer → Prop} {R : β → Writer → Prop} {E E' : Fault RunError → Writer → Prop}

theorem of_run_ok {a : α} {w' : Writer} (run : m.run.run w = (.ok a, w')) (h : Q a w') :
    Ends m w Q E := by
  simp only [Ends, run]
  exact h

theorem of_run_error {e : Fault RunError} {w' : Writer} (run : m.run.run w = (.error e, w'))
    (h : E e w') : Ends m w Q E := by
  simp only [Ends, run]
  exact h

theorem of_ok (h : Ends m w Q E) {a : α} {w' : Writer} (run : m.run.run w = (.ok a, w')) :
    Q a w' := by
  simpa only [Ends, run] using h

theorem of_error (h : Ends m w Q E) {e : Fault RunError} {w' : Writer}
    (run : m.run.run w = (.error e, w')) : E e w' := by
  simpa only [Ends, run] using h

theorem exists_ok (h : Ends m w Q E) (never : ∀ e w', ¬ E e w') :
    ∃ a w', m.run.run w = (.ok a, w') ∧ Q a w' := by
  rcases run : m.run.run w with ⟨result, w'⟩
  cases result with
  | ok a => exact ⟨a, w', rfl, h.of_ok run⟩
  | error e => exact absurd (h.of_error run) (never e w')

theorem mono (h : Ends m w Q E) (ok : ∀ a w', Q a w' → Q' a w')
    (error : ∀ e w', E e w' → E' e w') : Ends m w Q' E' := by
  rcases run : m.run.run w with ⟨result, w'⟩
  cases result with
  | ok a => exact of_run_ok run (ok a w' (h.of_ok run))
  | error e => exact of_run_error run (error e w' (h.of_error run))

theorem pure {a : α} (h : Q a w) : Ends (Pure.pure a) w Q E := of_run_ok rfl h

theorem bind (first : Ends m w Q E) (next : ∀ a w', Q a w' → Ends (f a) w' R E) :
    Ends (m >>= f) w R E := by
  rcases run : m.run.run w with ⟨result, w'⟩
  cases result with
  | ok a =>
    have whole : (m >>= f).run.run w = (f a).run.run w' := by
      rw [ExceptT.run_bind, StateT.run_bind, run]
      rfl
    have rest := next a w' (first.of_ok run)
    simpa only [Ends, whole] using rest
  | error e =>
    have whole : (m >>= f).run.run w = (.error e, w') := by
      rw [ExceptT.run_bind, StateT.run_bind, run]
      rfl
    exact of_run_error whole (first.of_error run)

theorem require {b : Bool} {Q : Unit → Writer → Prop} (holds : b = true) (h : Q () w) :
    Ends (Writer.require b) w Q E := by
  simp only [Writer.require, holds]
  exact pure h

theorem refuse {e : RunError} (h : E (.error e) w) : Ends (Writer.refuse e : Writing α) w Q E :=
  of_run_error rfl h

theorem lift_ok {a : α} (h : Q a w) : Ends (Writer.lift (.ok a)) w Q E := pure h

theorem get {f : Writer → Writing β} (h : Ends (f w) w R E) :
    Ends (MonadState.get >>= f) w R E := by
  have run : (MonadState.get : Writing Writer).run.run w = (.ok w, w) := rfl
  exact bind (of_run_ok (Q := fun a w' => a = w ∧ w' = w) run ⟨rfl, rfl⟩)
    fun a w' same => by rw [same.1, same.2]; exact h

theorem modify {f : Writer → Writer} {Q : Unit → Writer → Prop} (h : Q () (f w)) :
    Ends (modifyThe Writer f : Writing Unit) w Q E := of_run_ok rfl h

/-- A call on the destination is accepted or refused. -/
theorem call {path : Path} {c : Output.Call} {change : Output → Blob → Blob}
    {Q : Unit → Writer → Prop}
    (accepted : w.output.refuses w.output.calls c = none →
      Q () { w with output := { w.output with
        content := change w.output w.output.content
        calls := w.output.calls.push c } })
    (refused : ∀ cause, w.output.refuses w.output.calls c = some cause →
      E (.error (.writeFailure path cause)) { w with output := { w.output with
        calls := w.output.calls.push c } }) :
    Ends (Writer.call path fun o => o.perform c (change o)) w Q E := by
  have told : Ends (modifyGet fun v : Writer =>
      ((v.output.perform c (change v.output)).1,
        { v with output := (v.output.perform c (change v.output)).2 })) w
      (fun a w' => a = (w.output.perform c (change w.output)).1
        ∧ w' = { w with output := (w.output.perform c (change w.output)).2 }) E :=
    of_run_ok rfl ⟨rfl, rfl⟩
  refine bind told ?_
  rintro _ _ ⟨rfl, rfl⟩
  cases verdict : w.output.refuses w.output.calls c with
  | none =>
    simp only [Output.perform, verdict]
    exact pure (accepted verdict)
  | some cause =>
    simp only [Output.perform, verdict]
    exact refuse (refused cause verdict)

end Ends

/-! ## What has been put -/

def content (w : Writer) : Bytes := w.output.content.toList

/-- A failure that goes back to a call which the destination refuses. -/
def Refusal (w : Writer) (path : Path) (e : RunError) : Prop :=
  ∃ earlier call cause, w.output.refuses earlier call = some cause ∧ e = .writeFailure path cause

/-- A piece has been put at an offset, in any number of calls, and nothing else. An empty piece may
take no call at all, and then the content does not even grow to the offset. -/
structure Wrote (offset : Nat) (piece : Bytes) (progress : Progress) (w w' : Writer) : Prop where
  blockSize : w'.blockSize = w.blockSize
  refuses : w'.output.refuses = w.output.refuses
  progress : w'.progress = progress
  put : w'.content = w.content.put offset piece ∨ piece = [] ∧ w'.content = w.content

/-- A run stopped with an error of some cause, after a piece had been put that takes no more room
than it was given. -/
structure Stopped (offset room : Nat) (progress : Progress) (cause : RunError → Prop) (w : Writer)
    (e : Fault RunError) (w' : Writer) : Prop where
  cause : ∃ r, e = .error r ∧ cause r
  wrote : ∃ piece, piece.length ≤ room ∧ Wrote offset piece progress w w'

variable {offset next : Nat} {piece rest : Bytes} {progress last : Progress} {w w' w'' : Writer}

namespace Wrote

theorem refl (offset : Nat) (w : Writer) : Wrote offset [] w.progress w w :=
  ⟨rfl, rfl, rfl, .inr ⟨rfl, rfl⟩⟩

/-- Where there is no gap before the offset, the content is the one with the piece put. -/
theorem content_eq (h : Wrote offset piece progress w w') (within : offset ≤ w.content.length) :
    w'.content = w.content.put offset piece := by
  obtain put | ⟨rfl, same⟩ := h.put
  · exact put
  · rw [same, Bytes.put_nil_of_le within]

/-- A piece and another one behind it are one piece. -/
theorem trans (first : Wrote offset piece progress w w') (second : Wrote next rest last w' w'')
    (behind : next = offset + piece.length) : Wrote offset (piece ++ rest) last w w'' where
  blockSize := second.blockSize.trans first.blockSize
  refuses := second.refuses.trans first.refuses
  progress := second.progress
  put := by
    obtain put | ⟨rfl, same⟩ := second.put
    · obtain before | ⟨rfl, before⟩ := first.put
      · rw [put, before, behind, Bytes.put_put]
        exact .inl rfl
      · rw [put, before, behind]
        exact .inl rfl
    · rw [List.append_nil, same]
      exact first.put

theorem counted (h : Wrote offset piece progress w w') (last : Progress) :
    Wrote offset piece last w { w' with progress := last } :=
  ⟨h.blockSize, h.refuses, rfl, h.put⟩

theorem refusal (h : Wrote offset piece progress w w') {path : Path} {e : RunError}
    (refused : w'.Refusal path e) : w.Refusal path e := by
  rwa [Refusal, h.refuses] at refused

/-- A run that stopped behind a piece stopped after this piece. -/
theorem stopped (first : Wrote offset piece progress w w') {room : Nat}
    {cause : RunError → Prop} {e : Fault RunError} (h : Stopped next room last cause w' e w'')
    (behind : next = offset + piece.length) :
    Stopped offset (piece.length + room) last cause w e w'' where
  cause := h.cause
  wrote := by
    obtain ⟨more, small, wrote⟩ := h.wrote
    refine ⟨piece ++ more, ?_, first.trans wrote behind⟩
    rw [List.length_append]
    exact Nat.add_le_add_left small _

end Wrote

namespace Stopped

theorem mono {room room' : Nat} {cause cause' : RunError → Prop} {e : Fault RunError}
    (h : Stopped offset room progress cause w e w') (more : room ≤ room')
    (weaker : ∀ {r}, cause r → cause' r) : Stopped offset room' progress cause' w e w' where
  cause := by
    obtain ⟨r, rfl, why⟩ := h.cause
    exact ⟨r, rfl, weaker why⟩
  wrote := by
    obtain ⟨piece, small, wrote⟩ := h.wrote
    exact ⟨piece, Nat.le_trans small more, wrote⟩

theorem at_once {room : Nat} {cause : RunError → Prop} {r : RunError} (why : cause r) :
    Stopped offset room w.progress cause w (.error r) w :=
  ⟨⟨r, rfl, why⟩, [], Nat.zero_le _, Wrote.refl offset w⟩

end Stopped

/-! ## Single calls -/

/-- An accepted write puts its bytes, or there are none and the content stays as it was. -/
theorem toList_write (o : Output) (offset : Nat) (bytes : Blob) :
    (if o.stretches || bytes.size != 0 then o.content.overwrite offset bytes
        else o.content).toList = o.content.toList.put offset bytes.toList
      ∨ bytes.toList = [] ∧ (if o.stretches || bytes.size != 0
          then o.content.overwrite offset bytes else o.content).toList = o.content.toList := by
  cases lasting : o.stretches || bytes.size != 0 with
  | true => exact .inl (Blob.toList_overwrite_eq_put ..)
  | false =>
    have empty : bytes.size = 0 := by simpa using (Bool.or_eq_false_iff.1 lasting).2
    exact .inr ⟨List.eq_nil_of_length_eq_zero ((Blob.length_toList bytes).trans empty), rfl⟩

theorem ends_put (path : Path) (offset : Nat) (bytes : Blob) (w : Writer) :
    Ends (put path offset bytes) w (fun _ => Wrote offset bytes.toList w.progress w)
      (Stopped offset 0 w.progress (w.Refusal path) w) := by
  refine Ends.call ?_ ?_
  · intro _
    exact ⟨rfl, rfl, rfl, toList_write w.output offset bytes⟩
  · intro cause refused
    refine ⟨⟨_, rfl, _, _, cause, refused, rfl⟩, [], Nat.le_refl _, rfl, rfl, rfl, .inr ⟨rfl, rfl⟩⟩

/-- Putting zeros, of which there are enough for one block of the largest size. -/
theorem ends_putZeros (path : Path) (offset : Nat) {length : Nat} (w : Writer)
    (small : length ≤ 4096) :
    Ends (putZeros path offset length) w
      (fun _ => Wrote offset (List.replicate length 0) w.progress w)
      (Stopped offset 0 w.progress (w.Refusal path) w) := by
  refine Ends.bind (Q := fun _ => (w = ·)) (Ends.require (decide_eq_true small) rfl) ?_
  rintro _ _ rfl
  have zeros := ends_put path offset (.hole length) w
  rwa [Blob.toList_hole] at zeros

end FlatImage.Writer
