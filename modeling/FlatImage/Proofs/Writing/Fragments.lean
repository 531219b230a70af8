import FlatImage.Proofs.Requests
import FlatImage.Proofs.Writing.Assembly

/-!
# Copying from readers with other pieces

Two runs that copy from readers with the same bytes ahead are followed side by side. Whatever the
sizes of the pieces are, both make the same calls with the same bytes, so that a destination, which
may refuse any call for what came before it, has to answer both alike.
-/

namespace FlatImage

/-- Contents with the same bytes have one size, whichever of their zeros are stored. -/
theorem Blob.size_eq_of_toList {b b' : Blob} (same : b.toList = b'.toList) : b.size = b'.size := by
  rw [← length_toList, same, length_toList]

namespace Writer

/-- Two writers that differ at most in which zeros of their contents are stored. -/
structure Resembles (w w' : Writer) : Prop where
  blockSize : w.blockSize = w'.blockSize
  progress : w.progress = w'.progress
  calls : w.output.calls = w'.output.calls
  refuses : w.output.refuses = w'.output.refuses
  stretches : w.output.stretches = w'.output.stretches
  content : w.content = w'.content

theorem Resembles.refl (w : Writer) : w.Resembles w := ⟨rfl, rfl, rfl, rfl, rfl, rfl⟩

/-- Writers that resemble each other answer alike when the same bytes are put. -/
theorem Resembles.write {w w' : Writer} (left : w.Resembles w') (offset : Nat)
    {bytes bytes' : Blob} (same : bytes.toList = bytes'.toList) :
    (w.output.write offset bytes).1 = (w'.output.write offset bytes').1
      ∧ Resembles { w with output := (w.output.write offset bytes).2 }
        { w' with output := (w'.output.write offset bytes').2 } := by
  have size := Blob.size_eq_of_toList same
  obtain ⟨blockSize, ⟨content, calls, refuses, stretches⟩, progress⟩ := w
  obtain ⟨_, ⟨content', _, _, _⟩, _⟩ := w'
  obtain ⟨rfl, rfl, rfl, rfl, rfl, contents⟩ := left
  -- A call tells how many bytes are put and not which, so that it is the same call on both sides.
  simp only [Output.write, Output.perform, ← size]
  cases refuses calls (.write offset bytes.size) with
  | some cause => exact ⟨rfl, rfl, rfl, rfl, rfl, rfl, contents⟩
  | none =>
    refine ⟨rfl, rfl, rfl, rfl, rfl, rfl, ?_⟩
    change content.toList = content'.toList at contents
    change Blob.toList (if _ then _ else _) = Blob.toList (if _ then _ else _)
    by_cases lasting : (stretches || bytes.size != 0) = true
    · rw [if_pos lasting, if_pos lasting, Blob.toList_overwrite_eq_put,
        Blob.toList_overwrite_eq_put, contents, same]
    · rw [if_neg lasting, if_neg lasting, contents]

/-- Two runs have ended alike: with results that belong together or with the same fault. -/
inductive EndAlike {α β : Type} (R : α → β → Prop) :
    Except (Fault RunError) α × Writer → Except (Fault RunError) β × Writer → Prop
  | ok {a : α} {b : β} {w w' : Writer} (results : R a b) (left : w.Resembles w') :
    EndAlike R (.ok a, w) (.ok b, w')
  | error {e : Fault RunError} {w w' : Writer} (left : w.Resembles w') :
    EndAlike R (.error e, w) (.error e, w')

/-- Runs that end alike with equal results have one outcome. -/
theorem EndAlike.exists_eq {α : Type} {run run' : Except (Fault RunError) α × Writer}
    (h : EndAlike Eq run run') :
    ∃ result left left', run = (result, left) ∧ run' = (result, left') ∧ left.Resembles left' := by
  cases h with
  | ok results left => exact ⟨_, _, _, rfl, results ▸ rfl, left⟩
  | error left => exact ⟨_, _, _, rfl, rfl, left⟩

/-- Two computations end alike on writers that resemble each other. -/
def Alongside {α β : Type} (R : α → β → Prop) (m : Writing α) (m' : Writing β) : Prop :=
  ∀ w w', w.Resembles w' → EndAlike R (m.run.run w) (m'.run.run w')

namespace Alongside

variable {α β γ δ : Type} {R : α → β → Prop} {S : γ → δ → Prop}

theorem pure {a : α} {b : β} (results : R a b) :
    Alongside R (Pure.pure a : Writing α) (Pure.pure b) := fun _ _ left => .ok results left

theorem refuse (e : RunError) : Alongside R (Writer.refuse e) (Writer.refuse e) :=
  fun _ _ left => .error left

theorem require (b : Bool) : Alongside Eq (Writer.require b) (Writer.require b) := by
  cases b with
  | true => exact pure rfl
  | false => exact fun _ _ left => .error left

theorem bind {m : Writing α} {m' : Writing β} {f : α → Writing γ} {f' : β → Writing δ}
    (first : Alongside R m m') (next : ∀ a b, R a b → Alongside S (f a) (f' b)) :
    Alongside S (m >>= f) (m' >>= f') := by
  intro w w' left
  rw [ExceptT.run_bind, StateT.run_bind, ExceptT.run_bind, StateT.run_bind]
  have ends := first w w' left
  revert ends
  generalize m.run.run w = run
  generalize m'.run.run w' = run'
  intro ends
  cases ends with
  | ok results left => exact next _ _ results _ _ left
  | error left => exact .error left

theorem get {f : Writer → Writing γ} {f' : Writer → Writing δ}
    (same : ∀ w w', w.Resembles w' → Alongside S (f w) (f' w')) :
    Alongside S (MonadState.get >>= f) (MonadState.get >>= f') :=
  fun w w' left => same w w' left w w' left

theorem put (path : Path) (offset : Nat) {bytes bytes' : Blob}
    (same : bytes.toList = bytes'.toList) :
    Alongside Eq (Writer.put path offset bytes) (Writer.put path offset bytes') := by
  refine bind (R := Eq) (fun w w' left => ?_) ?_
  · change EndAlike Eq (.ok (w.output.write offset bytes).1,
        { w with output := (w.output.write offset bytes).2 })
      (.ok (w'.output.write offset bytes').1,
        { w' with output := (w'.output.write offset bytes').2 })
    obtain ⟨answers, writers⟩ := left.write offset same
    exact .ok answers writers
  · rintro answer _ rfl
    cases answer with
    | ok => exact pure rfl
    | error e => exact refuse _

/-- A run goes on after the same check, or neither does. -/
theorem check {c c' : Prop} [Decidable c] [Decidable c'] (same : c ↔ c') (e : RunError)
    {next : Writing γ} {next' : Writing δ} (goes : Alongside S next next') :
    Alongside S
      (do
        if c then Writer.refuse e
        next)
      (do
        if c' then Writer.refuse e
        next') := by
  by_cases holds : c
  · rw [if_pos holds, if_pos (same.1 holds)]
    exact bind (R := fun _ _ => False) (refuse e) fun _ _ => False.elim
  · rw [if_neg holds, if_neg (mt same.2 holds)]
    exact goes

theorem putZeros (path : Path) (offset length : Nat) :
    Alongside Eq (Writer.putZeros path offset length) (Writer.putZeros path offset length) :=
  bind (require _) fun _ _ _ => put path offset rfl

end Alongside

/-! ## Copying -/

/-- Readers with the same bytes ahead give the same bytes, or fail alike. -/
theorem alongside_collect (path : Path) {r r' : Reader} (ahead : r.remainder = r'.remainder)
    (want : Nat) :
    Alongside (fun found found' => found.1.toList = found'.1.toList
        ∧ found.2.remainder = found'.2.remainder)
      (collect path r want) (collect path r' want) := by
  have same := (r.collect_remainder want).trans
    ((congrArg (·.ask want) ahead).trans (r'.collect_remainder want).symm)
  unfold collect
  cases given : r.collect want with
  | error e =>
    cases given' : r'.collect want with
    | error e' =>
      rw [given, given'] at same
      obtain rfl := Except.error.inj same
      exact .refuse _
    | ok found' =>
      rw [given, given'] at same
      cases same
  | ok found =>
    cases given' : r'.collect want with
    | error e' =>
      rw [given, given'] at same
      cases same
    | ok found' =>
      rw [given, given'] at same
      exact .pure (Prod.mk.inj (Except.ok.inj same))

/-- Copying from readers with the same bytes ahead does the same, piece after piece. -/
theorem alongside_copy (path : Path) (r r' : Reader) (ahead : r.remainder = r'.remainder)
    (offset remaining : Nat) :
    Alongside (fun rest rest' => rest.remainder = rest'.remainder)
      (copy path r offset remaining) (copy path r' offset remaining) := by
  rw [copy, copy]
  by_cases none : remaining = 0
  · simp only [none, dif_pos]
    exact .pure ahead
  · rw [dif_neg none, dif_neg none]
    refine .bind (alongside_collect path ahead _) ?_
    rintro ⟨bytes, rest⟩ ⟨bytes', rest'⟩ ⟨same, left⟩
    have size : bytes.size = bytes'.size := Blob.size_eq_of_toList same
    refine .check (size ▸ Iff.rfl) _ (.bind (.put path offset same) fun _ _ _ => ?_)
    exact alongside_copy path rest rest' left _ _
termination_by remaining
decreasing_by
  simp only [transferSize]
  omega

/-- Copying a content and filling up its last block does the same for readers with the same bytes
ahead. -/
theorem alongside_copyWhole {r r' : Reader} (ahead : r.remainder = r'.remainder)
    (f : PlannedFile) : Alongside Eq (copyWhole r f) (copyWhole r' f) := by
  refine .get fun w w' left => ?_
  simp only [← left.blockSize]
  generalize Geometry.byteRange f.start.toNat f.count.toNat w.blockSize = range
  refine .bind (alongside_copy f.path r r' ahead _ _) fun rest rest' behind => ?_
  refine .bind (alongside_collect f.path behind 1) ?_
  rintro ⟨extra, _⟩ ⟨extra', _⟩ ⟨same, _⟩
  have size : extra.size = extra'.size := Blob.size_eq_of_toList same
  refine .check (size ▸ Iff.rfl) _ ?_
  refine .bind (.require _) fun _ _ _ => ?_
  by_cases room : range.start + f.size.toNat < range.stop
  · rw [if_pos room]
    exact .putZeros _ _ _
  · rw [if_neg room]
    exact .pure rfl

/-- Whoever hands out bytes, in pieces of any size and with any interruptions: requests in sequence
are served with the bytes in order and none of them twice, each in full up to the end of the bytes.
A reader is served like everyone else with the same ahead, in failures as well. So a content is
copied, refused or given up alike, with the same calls and the same bytes, however it comes in
pieces. A destination that accepts every call gets it exactly when it has the planned size. -/
theorem full_reads {σ : Type} (s : Supply σ) (state : σ) (r r' : Reader) (wants : List Nat)
    (f : PlannedFile) (w : Writer) :
    ((s.remainder state).failure = none →
      ∃ given last, requests s.fill state wants = .ok (given, last)
        ∧ Served (s.remainder state).bytes wants given (s.remainder last).bytes)
    ∧ (r.failure = none → ∃ given last, requests Reader.collect r wants = .ok (given, last)
      ∧ Served r.ahead wants (given.map Blob.toList) last.ahead)
    ∧ (s.remainder state = r.remainder →
      (requests s.fill state wants).map (Prod.map id s.remainder)
        = (requests Reader.collect r wants).map (Prod.map (List.map Blob.toList) Reader.remainder))
    ∧ (r.remainder = r'.remainder →
      ∃ result left left', (copyWhole r f).run.run w = (result, left)
        ∧ (copyWhole r' f).run.run w = (result, left') ∧ left.Resembles left')
    ∧ (0 < w.blockSize → w.blockSize ≤ 4096 →
      f.count.toNat = Geometry.blocksFor f.size.toNat w.blockSize →
      (w.output.refuses = fun _ _ => none) →
        ((∃ left, (copyWhole r f).run.run w = (.ok (), left)) ↔ r.Holds f.size.toNat)) := by
  refine ⟨fun sound => ?_, fun sound => ?_, fun ahead => ?_, fun ahead => ?_,
    fun pos small count accepting => ?_⟩
  · obtain ⟨given, last, run, served⟩ := served_of_ask s.fill_remainder sound wants
    rw [List.map_id] at served
    exact ⟨given, last, run, served⟩
  · exact served_of_ask Reader.collect_remainder sound wants
  · have supplied := requests_map id s.remainder s.fill_remainder state wants
    have collected := requests_map _ _ Reader.collect_remainder r wants
    rw [collected, ← ahead, ← supplied, List.map_id_fun]
  · exact (alongside_copyWhole ahead f w w (.refl w)).exists_eq
  · have ends := ends_copyWhole r f w pos small count
    constructor
    · rintro ⟨left, run⟩
      exact (ends.of_ok run).1
    · intro holds
      obtain ⟨_, left, run, _⟩ := ends.exists_ok fun e left stopped => by
        obtain ⟨cause, _, refused | ⟨lacks, _⟩⟩ := stopped.cause
        · exact not_refused accepting cause ⟨_, refused⟩
        · exact lacks holds
      exact ⟨left, run⟩

/-- Twelve bytes that come in pieces of so many. -/
def twelve (pieces : List Nat) : Reader where
  content := .ofBuffer ⟨#[116, 119, 101, 108, 118, 101, 32, 98, 121, 116, 101, 115]⟩
  pieces := pieces

/-- Three requests for nine bytes get nine, three and none where they come in threes. The file of
the twelve bytes is written the same when they come at once. -/
theorem full_reads_in_threes :
    (∃ given last, requests Reader.supply.fill (twelve [3, 3, 3, 3]) [9, 9, 9] = .ok (given, last)
        ∧ Served (twelve []).ahead [9, 9, 9] given last.ahead)
      ∧ (∃ given last, requests Reader.collect (twelve [3, 3, 3, 3]) [9, 9, 9] = .ok (given, last)
        ∧ Served (twelve []).ahead [9, 9, 9] (given.map Blob.toList) last.ahead)
      ∧ (requests Reader.supply.fill (twelve [3, 3, 3, 3]) [9, 9, 9]).map
          (Prod.map id Reader.remainder)
        = .ok ([[116, 119, 101, 108, 118, 101, 32, 98, 121], [116, 101, 115], []], ⟨[], none⟩)
      ∧ ∃ left left', (copyWhole (twelve [3, 3, 3, 3]) ⟨[0x2f, 0x61], 1, 1, 12, .host []⟩).run.run
          ⟨512, .accepting (.hole 1024), .start⟩ = (.ok (), left)
        ∧ (copyWhole (twelve []) ⟨[0x2f, 0x61], 1, 1, 12, .host []⟩).run.run
          ⟨512, .accepting (.hole 1024), .start⟩ = (.ok (), left')
        ∧ left.Resembles left' := by
  obtain ⟨supplied, collected, alike, copied, accepted⟩ := full_reads Reader.supply
    (twelve [3, 3, 3, 3]) (twelve [3, 3, 3, 3]) (twelve []) [9, 9, 9]
    ⟨[0x2f, 0x61], 1, 1, 12, .host []⟩ ⟨512, .accepting (.hole 1024), .start⟩
  refine ⟨supplied rfl, collected rfl, ?_, ?_⟩
  · have pieces := alike rfl
    rw [requests_map _ _ Reader.collect_remainder] at pieces
    exact pieces.trans rfl
  · obtain ⟨result, left, left', run, run', same⟩ := copied rfl
    obtain ⟨written, done⟩ := (accepted (by decide) (by decide) rfl rfl).2 ⟨rfl, rfl⟩
    obtain ⟨rfl, rfl⟩ := Prod.mk.inj (run.symm.trans done)
    exact ⟨_, _, run, run', same⟩

end Writer

end FlatImage
