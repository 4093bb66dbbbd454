import Mathlib.Data.List.TakeWhile
import ClassMap.Project.Compile
import ClassMap.Proofs.Text.Plain
import ClassMap.Proofs.Traversal

/-!
The documents that are written are neither declarations nor projects. Both begin with plain characters
up to the name of their root, so that name is read back whatever follows, and it is not the one that
is asked for. So a document that is met where a source or a project file should be ends the run.
-/

set_option autoImplicit false
set_option relaxedAutoImplicit false

namespace ClassMap

/-! ### The root of a document -/

namespace Xml

/-- What a document that is written begins with, up to the name of its root. -/
def opening : List Char :=
  "<?xml version=\"1.0\" encoding=\"UTF-8\"?>\n<".toList

/-- A name that a document can be read with from plain characters. -/
structure IsRootName (name : String) : Prop where
  nonempty : name.toList ≠ []
  starts : QualifiedName.startsWell name.toList = true
  inner : name.toList.all isNameChar = true
  noColon : name.toList.all (· != ':') = true

variable {name : String} {attributes : List (String × String)} {children : List Element}
  {node : Node} {text : String}

theorem read?_of_isRootName (h : IsRootName name) {next : Char} (hnext : isNameChar next = false)
    (cs : List Char) :
    QualifiedName.read? (name.toList ++ next :: cs) = some (⟨"", name⟩, next :: cs) := by
  have hall : ∀ c ∈ name.toList, isNameChar c = true := List.all_eq_true.mp h.inner
  have hrun : (name.toList ++ next :: cs).takeWhile isNameChar = name.toList := by
    rw [List.takeWhile_append_of_pos hall, List.takeWhile_cons_of_neg (by simp [hnext]),
      List.append_nil]
  have hrest : (name.toList ++ next :: cs).dropWhile isNameChar = next :: cs := by
    rw [List.dropWhile_append_of_pos hall, List.dropWhile_cons_of_neg (by simp [hnext])]
  have hcolon : name.toList.dropWhile (· != ':') = [] :=
    List.dropWhile_eq_nil_iff.2 (List.all_eq_true.mp h.noColon)
  have hnonempty : name.toList.isEmpty = false := by simpa using h.nonempty
  simp only [QualifiedName.read?, hrun, hrest, hcolon, hnonempty, h.starts, Bool.not_false,
    Bool.and_true, if_true, String.ofList_toList]

theorem name_of_readElement? {depth : Nat} {around : Namespaces} {cs after rest : List Char}
    {name : QualifiedName} (hname : QualifiedName.read? cs = some (name, after))
    (hread : readElement? depth around cs = some (node, rest)) : node.name = name.name := by
  cases depth with
  | zero => exact absurd hread (by simp [readElement?])
  | succ depth =>
    rw [readElement?] at hread
    obtain ⟨⟨name', after'⟩, hread', hread⟩ := Option.bind_eq_some_iff.mp hread
    obtain ⟨rfl, rfl⟩ := Prod.mk.inj (Option.some.inj (hname.symm.trans hread'))
    dsimp only at hread
    split at hread
    · exact absurd hread (by simp)
    · obtain ⟨⟨raw, tagEnd, inner⟩, -, hread⟩ := Option.bind_eq_some_iff.mp hread
      dsimp only at hread
      obtain ⟨spaces, -, hread⟩ := Option.bind_eq_some_iff.mp hread
      obtain ⟨attributes, -, hnode⟩ := Option.bind_eq_some_iff.mp hread
      split at hnode
      · exact absurd hnode (by simp)
      · cases tagEnd with
        | closed =>
          obtain ⟨rfl, -⟩ := Prod.mk.inj (Option.some.inj hnode)
          rfl
        | opened =>
          obtain ⟨⟨children, ending⟩, -, hnode⟩ := Option.bind_eq_some_iff.mp hnode
          dsimp only at hnode
          obtain ⟨⟨closing, last⟩, -, hclosing⟩ := Option.bind_eq_some_iff.mp hnode
          dsimp only at hclosing
          split at hclosing
          · exact absurd hclosing (by simp)
          · obtain ⟨final, -, hresult⟩ := Option.bind_eq_some_iff.mp hclosing
            obtain ⟨rfl, -⟩ := Prod.mk.inj (Option.some.inj hresult)
            rfl

theorem skipRemarks?_name (steps : Nat) {c : Char} (hc : isNameStart c = true) (cs : List Char) :
    skipRemarks? (steps + 1) ('\n' :: '<' :: c :: cs) = some ('<' :: c :: cs) := by
  have hskip : skipSpaces ('\n' :: '<' :: c :: cs) = '<' :: c :: cs := rfl
  rw [skipRemarks?, hskip]
  split
  case h_1 heq =>
    rw [(List.cons.inj (List.cons.inj heq).2).1] at hc
    exact absurd hc (by decide)
  case h_2 heq =>
    rw [(List.cons.inj (List.cons.inj heq).2).1] at hc
    exact absurd hc (by decide)
  case h_3 => rfl

/-- What is read from a document is its root. -/
theorem name_of_parse? (h : IsRootName name) {next : Char} (hnext : isNameChar next = false)
    (hbegins : opening ++ (name.toList ++ [next]) <+: text.toList) (hparse : parse? text = some node) :
    node.name = name := by
  obtain ⟨cs, hcs⟩ := hbegins
  obtain ⟨first, inner, hinner⟩ := List.exists_cons_of_ne_nil h.nonempty
  have hstart : isNameStart first = true := by
    have hwell := h.starts
    rwa [hinner] at hwell
  have hname := read?_of_isRootName h hnext cs
  rw [hinner, List.cons_append] at hname
  have htext : text.toList = '<' :: (opening.tail ++ first :: (inner ++ next :: cs)) := by
    rw [← hcs, hinner, List.append_assoc, List.append_assoc]
    rfl
  have hafter : after? ['<', '?', 'x', 'm', 'l']
      ('<' :: (opening.tail ++ first :: (inner ++ next :: cs))) =
        some (' ' :: ("version=\"1.0\" encoding=\"UTF-8\"?>\n<".toList ++
          first :: (inner ++ next :: cs))) := rfl
  have hdeclaration : afterDeclaration? (' ' :: ("version=\"1.0\" encoding=\"UTF-8\"?>\n<".toList ++
      first :: (inner ++ next :: cs))) = some ('\n' :: '<' :: first :: (inner ++ next :: cs)) := rfl
  have hmark : ('<'.toNat == 0xFEFF) = false := rfl
  simp only [parse?, htext, hmark, Bool.false_eq_true, if_false, Option.bind_eq_bind] at hparse
  split at hparse
  case isTrue => exact absurd hparse (by simp)
  case isFalse =>
    simp only [hafter, hdeclaration, Option.bind_some, skipRemarks?_name _ hstart] at hparse
    obtain ⟨⟨root, rest⟩, hread, hend⟩ := Option.bind_eq_some_iff.mp hparse
    obtain ⟨last, -, hroot⟩ := Option.bind_eq_some_iff.mp hend
    split at hroot
    case isTrue =>
      obtain rfl := Option.some.inj hroot
      exact name_of_readElement? hname hread
    case isFalse => exact absurd hroot (by simp)

theorem toList_render_block (level : Nat) (name : String) (attributes : List (String × String))
    (children : List Element) : ∃ rest : List Char,
      ((Element.block name attributes children).render level).toList =
        ((Element.indent level).toList ++ ['<']) ++ (name.toList ++
          ((Element.renderAttributes attributes).toList ++ '>' :: rest)) := by
  have hopen : "<".toList = ['<'] := by decide
  have hclose : ">".toList = ['>'] := by decide
  simp only [Element.render, String.toList_append, List.append_assoc, hopen, hclose]
  exact ⟨_, rfl⟩

/-- A document begins with its declaration and the name of its root. -/
theorem prefix_document (name : String) (attributes : List (String × String))
    (children : List Element) : ∃ next, (next = ' ' ∨ next = '>') ∧
      opening ++ (name.toList ++ [next]) <+:
        (Element.document (.block name attributes children)).toList := by
  obtain ⟨rest, hrest⟩ := toList_render_block 0 name attributes children
  have hdocument : (Element.document (.block name attributes children)).toList =
      opening ++ (name.toList ++ ((Element.renderAttributes attributes).toList ++ '>' :: rest)) := by
    refine String.toList_append.trans ?_
    refine (congrArg (_ ++ ·) hrest).trans ?_
    exact (List.append_assoc _ _ _).symm.trans (congrArg (· ++ _) (by decide))
  simp only [hdocument, List.prefix_append_right_inj]
  cases attributes with
  | nil => exact ⟨'>', Or.inr rfl, rest, rfl⟩
  | cons first others =>
    refine ⟨' ', Or.inl rfl, ?_⟩
    simp [Element.renderAttributes]

end Xml

/-! ### Documents in the place of other files -/

/-- What a compilation writes. -/
def IsDocument (content : Bytes) : Prop :=
  ∃ r : Repository, content = r.documents.descriptor ∨ content = r.documents.schema

namespace Repository

theorem documents_descriptor (r : Repository) : r.documents.descriptor =
    Text.encode (Xml.Element.document
      (.block "descriptor-repository" [] (r.classes.map (·.element)))) := by
  simp only [documents, descriptorDocument]

theorem documents_schema (r : Repository) : r.documents.schema =
    Text.encode (Xml.Element.document
      (.block "database" (Attributes.text "name" r.schema.databaseName ++
        Attributes.text "defaultIdMethod" "none") (r.schema.tables.map (·.element)))) := by
  simp only [documents, Schema.document]

end Repository

namespace IsDocument

variable {content : Bytes} {text path : String} {root : Xml.Node} {d : Disk}

theorem exists_block (h : IsDocument content) : ∃ name attributes children,
    (name = "descriptor-repository" ∨ name = "database") ∧
      content = Text.encode (Xml.Element.document (.block name attributes children)) := by
  obtain ⟨r, h | h⟩ := h
  · exact ⟨_, _, _, Or.inl rfl, h.trans r.documents_descriptor⟩
  · exact ⟨_, _, _, Or.inr rfl, h.trans r.documents_schema⟩

theorem isPlain_beginning {name : String} {next : Char}
    (hname : name = "descriptor-repository" ∨ name = "database") (hnext : next = ' ' ∨ next = '>') :
    ∀ c ∈ Xml.opening ++ (name.toList ++ [next]), Text.isPlain c = true := by
  refine List.all_eq_true.mp ?_
  rcases hname with rfl | rfl <;> rcases hnext with rfl | rfl <;> decide

theorem exists_start (h : IsDocument content) : ∃ name next rest,
    (name = "descriptor-repository" ∨ name = "database") ∧ (next = ' ' ∨ next = '>') ∧
      content = Text.plainBytes (Xml.opening ++ (name.toList ++ [next])) ++ rest := by
  obtain ⟨name, attributes, children, hname, rfl⟩ := h.exists_block
  obtain ⟨next, hnext, cs, hcs⟩ := Xml.prefix_document name attributes children
  exact ⟨name, next, _, hname, hnext,
    Text.encode_eq_plainBytes_append (isPlain_beginning hname hnext) hcs.symm⟩

theorem isRootName {name : String} (h : name = "descriptor-repository" ∨ name = "database") :
    Xml.IsRootName name := by
  rcases h with rfl | rfl <;> exact ⟨by decide, by decide, by decide, by decide⟩

/-- Whatever text is read from a document begins as it does. -/
theorem exists_beginning (h : IsDocument content) (hdecode : Text.decodeFile? content = some text) :
    ∃ name next, (name = "descriptor-repository" ∨ name = "database") ∧
      Xml.isNameChar next = false ∧ Xml.opening ++ (name.toList ++ [next]) <+: text.toList := by
  obtain ⟨name, next, rest, hname, hnext, rfl⟩ := h.exists_start
  have hplain := isPlain_beginning hname hnext
  have hopening : Xml.opening ++ (name.toList ++ [next]) =
      '<' :: (Xml.opening.tail ++ (name.toList ++ [next])) := rfl
  rw [hopening] at hplain hdecode
  refine ⟨name, next, hname, by rcases hnext with rfl | rfl <;> decide, ?_⟩
  rw [hopening]
  exact Text.prefix_of_decodeFile? hplain hdecode

/-- Its root is the one it was written with. -/
theorem name_of_parse? (h : IsDocument content) (hdecode : Text.decodeFile? content = some text)
    (hparse : Xml.parse? text = some root) :
    root.name = "descriptor-repository" ∨ root.name = "database" := by
  obtain ⟨name, next, hname, hnext, hbegins⟩ := h.exists_beginning hdecode
  rw [Xml.name_of_parse? (isRootName hname) hnext hbegins hparse]
  exact hname

/-- No mark is taken away in front of it. -/
theorem withoutMark_eq (h : IsDocument content) (hdecode : Text.decodeFile? content = some text) :
    Declarations.withoutMark text = text := by
  obtain ⟨name, next, -, -, cs, hcs⟩ := h.exists_beginning hdecode
  have htext : text.toList = '<' :: (Xml.opening.tail ++ (name.toList ++ [next]) ++ cs) := hcs.symm
  have hmark : ('<'.toNat == 0xFEFF) = false := rfl
  simp only [Declarations.withoutMark, htext, hmark, Bool.false_eq_true, if_false]

/-- No document is taken for declarations. -/
theorem read_ne_ok (h : IsDocument content) (hcontent : d.contents? path = some content)
    (decls : List ClassDecl) : Declarations.read d path ≠ .ok decls := by
  intro hread
  rw [Declarations.read, hcontent, Option.bind_some] at hread
  split at hread
  case h_1 => exact absurd hread (by simp)
  case h_2 text hdecode =>
    rw [h.withoutMark_eq hdecode, Declarations.parse] at hread
    split at hread
    case h_1 => exact absurd hread (by simp)
    case h_2 root hparse =>
      have hroot : root.name ≠ "declarations" := by
        rcases h.name_of_parse? hdecode hparse with hname | hname <;> rw [hname] <;> decide
      rw [Declarations.ofRoot, if_neg hroot] at hread
      exact absurd hread (by simp)

/-- No document is taken for a project. -/
theorem project_read_ne_ok (h : IsDocument content) (hcontent : d.contents? path = some content)
    (p : Project) : Project.read d path ≠ .ok p := by
  intro hread
  obtain ⟨root, hroot, hproject⟩ := Traversal.bind_eq_ok_iff.mp hread
  rw [Project.readRoot, hcontent, Option.bind_some] at hroot
  split at hroot
  case h_1 => exact absurd hroot (by simp)
  case h_2 text hdecode =>
    split at hroot
    case h_1 => exact absurd hroot (by simp)
    case h_2 read hparse =>
      obtain rfl := Except.ok.inj hroot
      have hfile : Text.decodeFile? content = some text := by
        unfold Text.decodeFile?
        rw [hdecode]
      have hname : (read.name != "Project") = true := by
        rcases h.name_of_parse? hfile hparse with hname | hname <;> rw [hname] <;> decide
      have hfault : Project.ofRoot d path read = .error (.wrongRoot read.name) := by
        simp only [Project.ofRoot, hname, if_true]
        rfl
      rw [hfault] at hproject
      exact absurd hproject (by simp [throw, throwThe, MonadExceptOf.throw])

end IsDocument

end ClassMap
