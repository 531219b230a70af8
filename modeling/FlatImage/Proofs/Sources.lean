import FlatImage.Proofs.Compilation

/-!
# What a run asks of its sources

A run reads the files that its layout gives blocks to. Those have to have the length that the tree
says, and a run that finds another one stops at such a file. A file that was empty when the tree was
made has no blocks and is never read, so a run succeeds whatever has become of it.
-/

namespace FlatImage

/-! ## Planned files and the files of the tree -/

theorem exists_of_mem_left {α β : Type} {R : α → β → Prop} {xs : List α} {ys : List β}
    (h : List.Forall₂ R xs ys) {x : α} (mem : x ∈ xs) : ∃ y ∈ ys, R x y := by
  induction h with
  | nil => cases mem
  | cons agree _ ih =>
    obtain rfl | later := List.mem_cons.1 mem
    · exact ⟨_, List.mem_cons_self, agree⟩
    · obtain ⟨y, found, agree⟩ := ih later
      exact ⟨y, List.mem_cons_of_mem _ found, agree⟩

/-- Lists that agree element by element have the same images under functions that respect this. -/
theorem map_eq_of_forall₂ {α β γ : Type} {R : α → β → Prop} {xs : List α} {ys : List β} {f : α → γ}
    {g : β → γ} (h : List.Forall₂ R xs ys) (same : ∀ x y, R x y → f x = g y) :
    xs.map f = ys.map g := by
  rw [← List.forall₂_eq_eq_eq, List.forall₂_map_left_iff, List.forall₂_map_right_iff]
  exact h.imp same

namespace Layout.Tiling

variable {o : Options} {root : Directory} {l : Layout}

/-- A planned file is one of the tree that is not empty. -/
theorem exists_place (h : l.Tiling o root) {f : PlannedFile} (mem : f ∈ l.files) :
    ∃ place ∈ root.allFiles rootPath, place.2.size ≠ 0 ∧ f.ContentOf o.blockBytes place := by
  obtain ⟨place, found, same⟩ := exists_of_mem_left h.files mem
  obtain ⟨below, full⟩ := List.mem_filter.1 found
  exact ⟨place, below, of_decide_eq_true full, same⟩

/-- A file of the tree that is not empty is planned. -/
theorem exists_planned (h : l.Tiling o root) {place : Path × File}
    (mem : place ∈ root.allFiles rootPath) (full : place.2.size ≠ 0) :
    ∃ f ∈ l.files, f.ContentOf o.blockBytes place :=
  exists_of_mem_left h.files.flip (List.mem_filter.2 ⟨mem, decide_eq_true full⟩)

end Layout.Tiling

namespace Directory

variable {o : Options} {root : Directory} {sources : Sources}

/-- How a run ends. -/
inductive Verdict (o : Options) (sources : Sources) (root : Directory) (before : Output) :
    Except (Fault RunError) Summary → Prop where
  | unplanned {e : Fault RunError} (failed : Layout.plan root o = .error e) :
      Verdict o sources root before (.error e)
  /-- Every file that was not empty has its length. -/
  | kept (planned : Layout.plan root o = .ok (root.layout o))
      (all : ∀ place ∈ root.allFiles Layout.rootPath, place.2.size ≠ 0 →
        place.2.content.Holds sources place.2.size.toNat) :
      Verdict o sources root before (.ok (root.summary o))
  /-- A file that was not empty has another length, or cannot be read. -/
  | changed (planned : Layout.plan root o = .ok (root.layout o)) (place : Path × File)
      (mem : place ∈ root.allFiles Layout.rootPath) (full : place.2.size ≠ 0)
      (lacks : ¬ place.2.content.Holds sources place.2.size.toNat) (cause : IoError) :
      Verdict o sources root before (.error (.error (.unreadableSource place.1 cause)))
  /-- The destination refused a call. -/
  | refused (planned : Layout.plan root o = .ok (root.layout o)) (earlier : Array Output.Call)
      (call : Output.Call) (cause : IoError) (no : before.refuses earlier call = some cause)
      (path : Path) : Verdict o sources root before (.error (.error (.writeFailure path cause)))

namespace Placeable

variable {before after : Output}

/-- A run that succeeds has found the files that are not empty to be as large as they claim. -/
theorem holds_of_compile (h : root.Placeable o) {s : Summary}
    (run : root.compile sources o before = (.ok s, after)) :
    ∀ place ∈ root.allFiles Layout.rootPath, place.2.size ≠ 0 →
      place.2.content.Holds sources place.2.size.toNat := by
  intro place mem full
  obtain ⟨f, found, same⟩ := h.tiling.exists_planned mem full
  have holds := (h.of_compile_ok run).2.1 f found
  rwa [same.content, same.size] at holds

/-- A run that fails blames a refused call, or a file that is not empty and is not as large as it
claims. -/
theorem blame_of_compile (h : root.Placeable o) {e : Fault RunError}
    (run : root.compile sources o before = (.error e, after)) :
    (∃ earlier call cause path, before.refuses earlier call = some cause
        ∧ e = .error (.writeFailure path cause))
      ∨ ∃ place ∈ root.allFiles Layout.rootPath, place.2.size ≠ 0
        ∧ ¬ place.2.content.Holds sources place.2.size.toNat
        ∧ ∃ cause, e = .error (.unreadableSource place.1 cause) := by
  obtain ⟨_, rfl, ⟨path, earlier, call, cause, no, rfl⟩ | ⟨f, found, lacks, cause, rfl⟩, _⟩ :=
    h.of_compile_error run
  · exact .inl ⟨earlier, call, cause, path, no, rfl⟩
  · obtain ⟨place, mem, full, same⟩ := h.tiling.exists_place found
    rw [same.content, same.size] at lacks
    exact .inr ⟨place, mem, full, lacks, cause, by rw [same.path]⟩

end Placeable

/-- A run succeeds only where every file that was not empty has the length that the tree says, and
it fails for no other reason than a file that has not, a refused call, or the lack of a layout. -/
theorem verdict_of_compile (o : Options) (sources : Sources) (root : Directory)
    (before : Output) : root.Verdict o sources before (root.compile sources o before).1 := by
  by_cases placeable : root.Placeable o
  · have planned : Layout.plan root o = .ok (root.layout o) := plan_eq_ok_iff.2 ⟨placeable, rfl⟩
    rcases run : root.compile sources o before with ⟨result, after⟩
    cases result with
    | ok s =>
      obtain ⟨rfl, _⟩ := placeable.of_compile_ok run
      exact .kept planned (placeable.holds_of_compile run)
    | error e =>
      obtain ⟨earlier, call, cause, path, no, rfl⟩ | ⟨place, mem, full, lacks, cause, rfl⟩ :=
        placeable.blame_of_compile run
      · exact .refused planned earlier call cause no path
      · exact .changed planned place mem full lacks cause
  · obtain ⟨e, failed, run⟩ := compile_of_not_placeable placeable sources before
    rw [run]
    exact .unplanned failed

/-- A tree with a host file that was empty at the walk. -/
def walked : Directory := .mk 0 (.cons [0x66] (.file ⟨0, 0, .host [0x73, 0x2f, 0x66]⟩) .nil)

/-- A host on which every file has three bytes. -/
def grown : Sources := fun _ => .ok { content := .ofBuffer ⟨#[1, 2, 3]⟩ }

/-- The run succeeds although the file has grown since the walk. -/
theorem compile_walked_grown : ∃ after,
    walked.compile grown {} (.accepting (.hole 0)) = (.ok (walked.summary {}), after)
      ∧ ∃ place ∈ walked.allFiles Layout.rootPath,
        ¬ place.2.content.Holds grown place.2.size.toNat := by
  have placeable : walked.Placeable {} := ⟨rfl, by decide, by decide⟩
  -- The only file has no blocks, so none is asked for.
  have readable : (walked.layout {}).Readable grown := nofun
  obtain ⟨after, run, _⟩ := placeable.compile_accepting readable (.hole 0)
  refine ⟨after, run, _, List.mem_cons_self, ?_⟩
  rintro ⟨source, found, _, size⟩
  obtain rfl := Except.ok.inj found
  cases size

end Directory

end FlatImage
