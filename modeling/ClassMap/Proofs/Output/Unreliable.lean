import ClassMap.Project.Compile
import ClassMap.Proofs.Files.Edits
import ClassMap.Proofs.Files.Folders

/-!
Writing to a disk that may fail at any step. A list of mishaps tells, step by step, which fail: a
step that makes folders or writes a file may fail after any part of its work, be it none or all of
it, and leaves what it has done behind; moving a file is done as a whole or not at all. Removals do
not fail. A run that fails has removed again whatever it wrote, in its own places and in those of
the output (`Edited.stage`, `Edited.place`).
-/

set_option autoImplicit false
set_option relaxedAutoImplicit false

namespace ClassMap

open Disk

/-- For each step to come, whether it fails, and how much of its work it does before. -/
abbrev Mishaps := List (Option Nat)

/-- A step that fails after a part of its work if there is a mishap for it. -/
def attempt (work : Disk → Bool × Disk) (part : Nat → Disk → Disk) :
    StateM (Disk × Mishaps) Bool :=
  fun (d, mishaps) ↦
    match mishaps with
    | some done :: rest => (false, (part done d, rest))
    | none :: rest => ((work d).1, ((work d).2, rest))
    | [] => ((work d).1, ((work d).2, []))

def Disk.removeFiles (paths : List String) (d : Disk) : Disk :=
  paths.foldl (fun d path ↦ d.removeFile path) d

/-- What a failed attempt to write leaves: nothing if the file could not even be opened, otherwise
a file with so much of the content. -/
def Disk.cutFile (path : String) (content : Bytes) : Nat → Disk → Disk
  | 0, d => d
  | written + 1, d => (d.writeFile path (content.take written)).2

/-- Writing to a disk on which each step has its mishap. -/
def Storage.unreliable : Storage (StateM (Disk × Mishaps)) where
  makeFolders path := attempt (Disk.makeFolders path) fun made ↦ makeFoldersUpTo made path
  writeFile path content := attempt (Disk.writeFile path content) (cutFile path content)
  renameFile source target := attempt (Disk.renameFile source target) fun _ ↦ id
  removeFile path := modify fun (d, mishaps) ↦ (d.removeFile path, mishaps)

variable {d₀ d d' : Disk} {mishaps mishaps' : Mishaps} {path source target : String}
  {content : Bytes} {written removed : List String} {ok : Bool} {paths : List String}
  {result : Except FileError Unit} {placements : List Placement}

/-! ### Single steps -/

theorem attempt_cases {work : Disk → Bool × Disk} {part : Nat → Disk → Disk}
    (hrun : (attempt work part).run (d, mishaps) = (ok, (d', mishaps'))) :
    work d = (ok, d') ∨ (ok = false ∧ ∃ done, d' = part done d) := by
  rcases mishaps with _ | ⟨_ | done, rest⟩
  · obtain ⟨rfl, hstate⟩ := Prod.mk.inj hrun
    exact Or.inl (congrArg (Prod.mk _) (Prod.mk.inj hstate).1)
  · obtain ⟨rfl, hstate⟩ := Prod.mk.inj hrun
    exact Or.inl (congrArg (Prod.mk _) (Prod.mk.inj hstate).1)
  · obtain ⟨rfl, hstate⟩ := Prod.mk.inj hrun
    exact Or.inr ⟨rfl, done, (Prod.mk.inj hstate).1.symm⟩

namespace Disk.Edited

/-- An attempt to write succeeds only where a file can be, and whether it does or not, it touches no
other place. -/
theorem attemptWrite (h : d₀.Edited d written removed)
    (hrun : (Storage.unreliable.writeFile path content).run (d, mishaps) = (ok, (d', mishaps'))) :
    d₀.Edited d' (path :: written) removed ∧ (ok = true → d₀.CanHold path) := by
  have hmore : d₀.Edited d (path :: written) removed :=
    h.congr (fun p hp ↦ List.mem_cons_of_mem path hp) fun p ↦ Iff.rfl
  rcases attempt_cases hrun with hwork | ⟨rfl, part, rfl⟩
  · have hedited := h.writeFile path content
    rw [hwork] at hedited
    refine ⟨hedited, fun hok ↦ ?_⟩
    rw [← canHold_congr h.folders, ← writeFile_fst_iff content, hwork]
    exact hok
  · refine ⟨?_, fun hok ↦ Bool.noConfusion hok⟩
    cases part with
    | zero => exact hmore
    | succ part => exact h.writeFile path (content.take part)

theorem attemptRename (h : d₀.Edited d (source :: written) removed)
    (hrun : (Storage.unreliable.renameFile source target).run (d, mishaps) =
      (true, (d', mishaps'))) :
    d₀.Edited d' (target :: written) (source :: removed) ∧ d₀.CanHold target := by
  rcases attempt_cases hrun with hwork | ⟨hok, -⟩
  · refine ⟨h.renameFile hwork, ?_⟩
    have hmoved : (d.renameFile source target).1 = true := by rw [hwork]
    exact (canHold_congr h.folders).mp (renameFile_fst_iff.mp hmoved).2
  · exact Bool.noConfusion hok

theorem eq_of_attemptRename
    (hrun : (Storage.unreliable.renameFile source target).run (d, mishaps) =
      (false, (d', mishaps'))) : d' = d := by
  rcases attempt_cases hrun with hwork | ⟨-, -, rfl⟩
  · rcases renameFile_cases d source target with ⟨_, _, _, -, -, -, heq⟩ | ⟨-, heq⟩
    · exact absurd (Prod.mk.inj (hwork.symm.trans heq)).1 (by simp)
    · exact (Prod.mk.inj (hwork.symm.trans heq)).2
  · rfl

/-- Removing files one after the other. -/
theorem removeFiles (h : d₀.Edited d (paths ++ written) removed) :
    d₀.Edited (d.removeFiles paths) written (paths ++ removed) := by
  induction paths generalizing d removed with
  | nil => exact h
  | cons path rest ih =>
    have hrest := ih (d := d.removeFile path) h.removeFile
    refine hrest.congr (fun p ↦ id) fun p ↦ ?_
    simp only [List.mem_append, List.mem_cons]
    tauto

end Disk.Edited

theorem run_bind {σ α β : Type} {x : StateM σ α} {f : α → StateM σ β} {s t : σ} {a : α}
    (h : x.run s = (a, t)) : (x >>= f).run s = (f a).run t := by
  rw [StateT.run_bind, h]
  rfl

theorem run_bind_eq_iff {σ α β : Type} {x : StateM σ α} {f : α → StateM σ β} {s s' : σ} {b : β} :
    (x >>= f).run s = (b, s') ↔ ∃ a t, x.run s = (a, t) ∧ (f a).run t = (b, s') := by
  constructor
  · exact fun h ↦ ⟨(x.run s).1, (x.run s).2, rfl, h⟩
  · rintro ⟨a, t, hx, hf⟩
    exact (run_bind hx).trans hf

theorem run_removeAll (paths : List String) (d : Disk) (mishaps : Mishaps) :
    (Storage.unreliable.removeAll paths).run (d, mishaps) = ((), (d.removeFiles paths, mishaps)) := by
  induction paths generalizing d with
  | nil => rfl
  | cons path rest ih => exact ih (d.removeFile path)

/-! ### No mishaps -/

/-- With no mishap to come, a run does what another one does without mishaps. -/
def Follows {α : Type} (x : StateM (Disk × Mishaps) α) (y : StateM Disk α) : Prop :=
  ∀ d : Disk, x.run (d, []) = ((y.run d).1, ((y.run d).2, []))

namespace Follows

theorem pure {α : Type} (a : α) : Follows (pure a) (pure a) :=
  fun _ ↦ rfl

theorem bind {α β : Type} {x : StateM (Disk × Mishaps) α} {y : StateM Disk α}
    {f : α → StateM (Disk × Mishaps) β} {g : α → StateM Disk β} (hx : Follows x y)
    (hf : ∀ a, Follows (f a) (g a)) : Follows (x >>= f) (y >>= g) := by
  intro d
  refine run_bind_eq_iff.mpr ⟨_, _, hx d, ?_⟩
  exact hf (y.run d).1 (y.run d).2

theorem removeAll (paths : List String) :
    Follows (Storage.unreliable.removeAll paths) (Storage.onDisk.removeAll paths) := by
  induction paths with
  | nil => exact pure ()
  | cons path rest ih => exact bind (fun _ ↦ rfl) fun _ ↦ ih

theorem stage (done : List String) (placements : List Placement) :
    Follows (Storage.unreliable.stage done placements) (Storage.onDisk.stage done placements) := by
  induction placements generalizing done with
  | nil => exact pure _
  | cons p rest ih =>
    refine bind (fun _ ↦ rfl) fun ok ↦ ?_
    cases ok with
    | true => exact ih _
    | false => exact bind (removeAll _) fun _ ↦ pure _

theorem place (done : List String) (placements : List Placement) :
    Follows (Storage.unreliable.place done placements) (Storage.onDisk.place done placements) := by
  induction placements generalizing done with
  | nil => exact pure _
  | cons p rest ih =>
    refine bind (fun _ ↦ rfl) fun ok ↦ ?_
    cases ok with
    | true => exact ih _
    | false => exact bind (removeAll _) fun _ ↦ bind (removeAll _) fun _ ↦ pure _

theorem writeOutputs (documents : Documents) (folder descriptorFile schemaFile : String) :
    Follows (Storage.unreliable.writeOutputs documents folder descriptorFile schemaFile)
      (Storage.onDisk.writeOutputs documents folder descriptorFile schemaFile) := by
  refine bind (fun _ ↦ rfl) fun ok ↦ ?_
  cases ok with
  | false => exact pure _
  | true =>
    refine bind (stage _ _) fun staged ↦ ?_
    cases staged with
    | error => exact pure _
    | ok =>
      refine bind (place _ _) fun placed ↦ ?_
      cases placed with
      | error => exact pure _
      | ok => exact pure _

/-- Without mishaps a project is compiled as on a disk that fails only where a path makes it fail. -/
theorem compileProject (d : Disk) (options : CompileOptions) :
    Follows (compileProject .unreliable d options) (compileProject .onDisk d options) := by
  rw [ClassMap.compileProject, ClassMap.compileProject]
  split
  · exact pure _
  · split
    · exact pure _
    · refine bind (writeOutputs _ _ _ _) fun written ↦ ?_
      cases written with
      | error => exact pure _
      | ok => exact pure _

end Follows

/-! ### Failing runs -/

theorem run_stage_cons {p : Placement} (h : d.CanHold p.staging) (done : List String)
    (rest : List Placement) (mishaps : Mishaps) :
    (Storage.unreliable.stage done (p :: rest)).run (d, none :: mishaps) =
      (Storage.unreliable.stage (done ++ [p.staging]) rest).run
        ((d.writeFile p.staging p.content).2, mishaps) := by
  refine run_bind (a := true) ?_
  exact congrArg (fun ok : Bool ↦ (ok, (_, mishaps))) ((writeFile_fst_iff p.content).mpr h)

/-- A document whose file cannot even be opened. -/
theorem run_stage_mishap (d : Disk) (p : Placement) (done : List String) (rest : List Placement)
    (mishaps : Mishaps) :
    (Storage.unreliable.stage done (p :: rest)).run (d, some 0 :: mishaps) =
      (.error (.outputUnwritable p.staging), (d.removeFiles (done ++ [p.staging]), mishaps)) := by
  have hwrite : (Storage.unreliable.writeFile p.staging p.content).run (d, some 0 :: mishaps) =
      (false, (d, mishaps)) := rfl
  rw [Storage.stage, run_bind hwrite, if_neg Bool.false_ne_true, run_bind (run_removeAll _ _ _)]
  rfl

theorem run_place_cons {p : Placement} (hsource : (d.contents? p.staging).isSome = true)
    (htarget : d.CanHold p.path) (done : List String) (rest : List Placement) (mishaps : Mishaps) :
    (Storage.unreliable.place done (p :: rest)).run (d, none :: mishaps) =
      (Storage.unreliable.place (done ++ [p.path]) rest).run
        ((d.renameFile p.staging p.path).2, mishaps) := by
  refine run_bind (a := true) ?_
  exact congrArg (fun ok : Bool ↦ (ok, (_, mishaps))) (renameFile_fst_iff.mpr ⟨hsource, htarget⟩)

theorem run_place_mishap (d : Disk) (p : Placement) (done : List String) (rest : List Placement)
    (mishaps : Mishaps) :
    (Storage.unreliable.place done (p :: rest)).run (d, some 0 :: mishaps) =
      (.error (.outputUnwritable p.path),
        ((d.removeFiles ((p :: rest).map (·.staging))).removeFiles done, mishaps)) := by
  have hrename : (Storage.unreliable.renameFile p.staging p.path).run (d, some 0 :: mishaps) =
      (false, (d, mishaps)) := rfl
  rw [Storage.place, run_bind hrename, if_neg Bool.false_ne_true, run_bind (run_removeAll _ _ _),
    run_bind (run_removeAll _ _ _)]
  rfl

namespace Disk.Edited

/-- Staging goes through and has written all the files beside their places, or it fails at one of
them and has removed it and those before it. -/
theorem stage {done : List String} (h : d₀.Edited d done [])
    (hrun : (Storage.unreliable.stage done placements).run (d, mishaps) =
      (result, (d', mishaps'))) :
    (result = .ok () ∧ d₀.Edited d' (done ++ placements.map (·.staging)) [] ∧
      ∀ p ∈ placements, d₀.CanHold p.staging) ∨
    ∃ e first p last, result = .error e ∧ placements = first ++ p :: last ∧
      (∀ q ∈ first, d₀.CanHold q.staging) ∧
      d₀.Edited d' [] (done ++ (first ++ [p]).map (·.staging)) := by
  induction placements generalizing done d mishaps with
  | nil =>
    obtain ⟨rfl, hstate⟩ := Prod.mk.inj hrun
    obtain rfl := (Prod.mk.inj hstate).1
    exact Or.inl ⟨rfl, by simpa using h, by simp⟩
  | cons p rest ih =>
    obtain ⟨ok, ⟨d₁, mishaps₁⟩, hwrite, hrest⟩ := run_bind_eq_iff.mp hrun
    obtain ⟨hedited, hcan⟩ := h.attemptWrite hwrite
    cases ok with
    | true =>
      have hdone : d₀.Edited d₁ (done ++ [p.staging]) [] :=
        hedited.congr (fun q hq ↦ by simpa [or_comm] using hq) fun q ↦ Iff.rfl
      rcases ih hdone hrest with ⟨hok, hall, hcans⟩ |
        ⟨e, first, q, last, herror, rfl, hcans, hremoved⟩
      · refine Or.inl ⟨hok, by simpa using hall, fun q hq ↦ ?_⟩
        rcases List.mem_cons.mp hq with rfl | hq
        · exact hcan rfl
        · exact hcans q hq
      · refine Or.inr ⟨e, p :: first, q, last, herror, rfl, fun x hx ↦ ?_, by simpa using hremoved⟩
        rcases List.mem_cons.mp hx with rfl | hx
        · exact hcan rfl
        · exact hcans x hx
    | false =>
      rw [if_neg Bool.false_ne_true, run_bind (run_removeAll _ _ _)] at hrest
      obtain ⟨rfl, hstate⟩ := Prod.mk.inj hrest
      obtain rfl := (Prod.mk.inj hstate).1
      have hdone : d₀.Edited d₁ ((done ++ [p.staging]) ++ []) [] :=
        hedited.congr (fun q hq ↦ by simpa [or_comm] using hq) fun q ↦ Iff.rfl
      exact Or.inr ⟨_, [], p, rest, rfl, rfl, by simp, by simpa using hdone.removeFiles⟩

/-- A failure to move one of the staged files removes what is still staged and what has been
placed. -/
theorem place {done gone : List String} {e : FileError}
    (h : d₀.Edited d (placements.map (·.staging) ++ done) gone)
    (hrun : (Storage.unreliable.place done placements).run (d, mishaps) =
      (.error e, (d', mishaps'))) :
    ∃ first p last, placements = first ++ p :: last ∧ (∀ q ∈ first, d₀.CanHold q.path) ∧
      d₀.Edited d' []
        (gone ++ placements.map (·.staging) ++ done ++ first.map (·.path)) := by
  induction placements generalizing done gone d mishaps with
  | nil => exact absurd (Prod.mk.inj hrun).1 (by simp)
  | cons p rest ih =>
    obtain ⟨ok, ⟨d₁, mishaps₁⟩, hrename, hrest⟩ := run_bind_eq_iff.mp hrun
    cases ok with
    | true =>
      have hsource : d₀.Edited d (p.staging :: (rest.map (·.staging) ++ done)) gone := h
      obtain ⟨hedited, hcan⟩ := hsource.attemptRename hrename
      have hdone : d₀.Edited d₁ (rest.map (·.staging) ++ (done ++ [p.path])) (p.staging :: gone) :=
        hedited.congr (fun q hq ↦ by
          simp only [List.mem_cons, List.mem_append, List.not_mem_nil, or_false] at hq ⊢
          tauto) fun q ↦ Iff.rfl
      obtain ⟨first, q, last, rfl, hcans, hremoved⟩ := ih hdone hrest
      refine ⟨p :: first, q, last, rfl, fun x hx ↦ ?_, hremoved.congr (fun q ↦ id) fun q ↦ ?_⟩
      · rcases List.mem_cons.mp hx with rfl | hx
        · exact hcan
        · exact hcans x hx
      · simp only [List.map_cons, List.mem_append, List.mem_cons, List.not_mem_nil, or_false]
        tauto
    | false =>
      obtain rfl := eq_of_attemptRename hrename
      rw [if_neg Bool.false_ne_true, run_bind (run_removeAll _ _ _),
        run_bind (run_removeAll _ _ _)] at hrest
      obtain ⟨-, hstate⟩ := Prod.mk.inj hrest
      obtain rfl := (Prod.mk.inj hstate).1
      have hempty : d₀.Edited (d₁.removeFiles ((p :: rest).map (·.staging))) (done ++ [])
          ((p :: rest).map (·.staging) ++ gone) := by
        rw [List.append_nil]
        exact h.removeFiles
      refine ⟨[], p, rest, rfl, by simp, hempty.removeFiles.congr (fun q ↦ id) fun q ↦ ?_⟩
      simp only [List.mem_append, List.map_nil, List.not_mem_nil, or_false]
      tauto

end Disk.Edited

/-- The paths that a failing run has emptied: those staged up to the failure, or all that were
staged with those placed before the failure. -/
inductive Disk.Emptied (d : Disk) (placements : List Placement) : List String → Prop
  | staging {first last : List Placement} {p : Placement} (hsplit : placements = first ++ p :: last)
      (hfirst : ∀ q ∈ first, d.CanHold q.staging) :
      Emptied d placements ((first ++ [p]).map (·.staging))
  | placing {first last : List Placement} {p : Placement} (hsplit : placements = first ++ p :: last)
      (hstaged : ∀ q ∈ placements, d.CanHold q.staging) (hfirst : ∀ q ∈ first, d.CanHold q.path) :
      Emptied d placements (placements.map (·.staging) ++ first.map (·.path))

/-- Where the documents go. -/
def Documents.placedAt (documents : Documents) (paths : OutputPaths) : List Placement :=
  [⟨paths.descriptor, documents.descriptor⟩, ⟨paths.schema, documents.schema⟩]

/-- A run that fails before its folders are made leaves some of them; a run that fails later leaves
the disk with its folders, and with what it wrote and what stood there before emptied. -/
theorem writeOutputs_eq_error {documents : Documents} {folder descriptorFile schemaFile : String}
    {e : FileError}
    (hrun : (Storage.unreliable.writeOutputs documents folder descriptorFile schemaFile).run
      (d, mishaps) = (.error e, (d', mishaps'))) :
    (d.Grows d' ∧ d'.Grows (d.makeFolders folder).2) ∨
    (d.makeFolders folder).1 = true ∧ ∃ removed,
      (d.makeFolders folder).2.Emptied
        (documents.placedAt ⟨Path.join folder descriptorFile, Path.join folder schemaFile⟩)
        removed ∧
      (d.makeFolders folder).2.Edited d' [] removed := by
  -- the folders, then the staging files, then the moves: one of the three steps fails
  obtain ⟨ok, ⟨d₁, mishaps₁⟩, hmake, hrest⟩ := run_bind_eq_iff.mp hrun
  cases ok with
  | false =>
    obtain ⟨-, hstate⟩ := Prod.mk.inj hrest
    obtain rfl := (Prod.mk.inj hstate).1
    rcases attempt_cases hmake with hwork | ⟨-, made, rfl⟩
    · have hd₁ : (d.makeFolders folder).2 = d₁ := by rw [hwork]
      exact Or.inl ⟨hd₁ ▸ grows_makeFolders folder d, hd₁ ▸ .refl _⟩
    · exact Or.inl (grows_makeFoldersUpTo made folder d)
  | true =>
    rcases attempt_cases hmake with hwork | ⟨hok, -⟩
    · rw [hwork]
      refine Or.inr ⟨rfl, ?_⟩
      obtain ⟨staged, ⟨d₂, mishaps₂⟩, hstage, hrest⟩ := run_bind_eq_iff.mp hrest
      rcases (Edited.refl d₁).stage hstage with ⟨rfl, hedited, hcans⟩ |
        ⟨_, first, p, last, rfl, hsplit, hcans, hedited⟩
      · obtain ⟨placed, ⟨d₃, mishaps₃⟩, hplace, hreturn⟩ := run_bind_eq_iff.mp hrest
        cases placed with
        | ok => exact absurd (Prod.mk.inj hreturn).1 (by simp)
        | error =>
          obtain ⟨-, hstate⟩ := Prod.mk.inj hreturn
          obtain rfl := (Prod.mk.inj hstate).1
          have hstaged : d₁.Edited d₂ ((documents.placedAt ⟨Path.join folder descriptorFile,
              Path.join folder schemaFile⟩).map (·.staging) ++ []) [] := by
            rw [List.append_nil]
            exact hedited
          obtain ⟨first, p, last, hsplit, hfirst, hremoved⟩ := hstaged.place hplace
          exact ⟨_, .placing hsplit hcans hfirst, by simpa using hremoved⟩
      · obtain ⟨-, hstate⟩ := Prod.mk.inj hrest
        obtain rfl := (Prod.mk.inj hstate).1
        exact ⟨_, .staging hsplit hcans, by simpa using hedited⟩
    · exact Bool.noConfusion hok

end ClassMap
