import Mustache.Proofs.CrlfIndent
import Mustache.Proofs.Escaping
import Mustache.Proofs.Lockstep

namespace Mustache
open Text

-- The second text is the first with some of its blanks left out.
inductive Thinned : List Char → List Char → Prop where
  | nil : Thinned [] []
  | kept (later : Thinned full bare) : Thinned (c :: full) (c :: bare)
  | dropped (blank : isBlank c = true) (later : Thinned full bare) : Thinned (c :: full) bare

namespace Thinned

theorem refl (text : List Char) : Thinned text text := by
  induction text with
  | nil => exact .nil
  | cons c text ih => exact .kept ih

theorem append (first : Thinned full bare) (second : Thinned full' bare') :
    Thinned (full ++ full') (bare ++ bare') := by
  induction first with
  | nil => exact second
  | kept later ih => exact .kept ih
  | dropped blank later ih => exact .dropped blank ih

theorem behind (blanks : ∀ c ∈ indent, isBlank c = true) (later : Thinned full bare) :
    Thinned (indent ++ full) bare := by
  induction indent with
  | nil => exact later
  | cons c indent ih =>
    obtain ⟨blank, rest⟩ := List.forall_mem_cons.mp blanks
    exact .dropped blank (ih rest)

theorem filter_eq (thinned : Thinned full bare) :
    full.filter (!isBlank ·) = bare.filter (!isBlank ·) := by
  induction thinned with
  | nil => rfl
  | @kept full bare c later ih => rw [List.filter_cons, List.filter_cons, ih]
  | dropped blank later ih => rw [List.filter_cons_of_neg (by simp [blank]), ih]

end Thinned

namespace Indent

theorem rows_thinned (blanks : ∀ c ∈ indent, isBlank c = true) (text : List Char) :
    Thinned (rows indent text) text := by
  induction text with
  | nil => exact .nil
  | cons c text ih =>
    unfold rows
    split
    -- The indent stands behind the line feed that it is added for.
    · exact .kept (.behind blanks ih)
    · exact .kept ih

theorem apply_thinned (blanks : ∀ c ∈ indent.toList, isBlank c = true) (run : String) :
    Thinned (apply indent run).toList run.toList := by
  have rows := rows_thinned blanks run.toList
  unfold apply
  split
  · exact .refl _
  · rw [String.toList_ofList, lines_eq]
    -- A text that opens with a line break has no indent in front.
    split
    · exact rows
    · exact .behind blanks rows

end Indent

def Entries.unindented (partials : Entries (List Node)) : Entries (List Node) :=
  partials.map fun entry => (entry.1, Node.reindentAll (fun _ => "") entry.2)

def Document.unindented (d : Document) : Document :=
  ⟨Node.reindentAll (fun _ => "") d.root, d.partials.unindented⟩

theorem Entries.get_map (f : α → β) (key : String) (entries : Entries α) :
    get? key (entries.map fun entry => (entry.1, f entry.2)) = (get? key entries).map f := by
  induction entries with
  | nil => rfl
  | cons entry entries ih =>
    rw [List.map_cons, get?, get?]
    split
    · rfl
    · exact ih

structure Walk.Unindented (host : Host) (data : Value) (w w' : Walk) : Prop where
  inside : w.frames.Inside host data
  blanks : ∀ c ∈ w.indent.toList, isBlank c = true
  thinned : Thinned w.out.toList w'.out.toList
  other : w' = { w with indent := "", out := w'.out }

namespace Setting
variable {s : Setting} {data : Value}

def unindented (s : Setting) : Setting := { s with partials := s.partials.unindented }

theorem lockstep_unindented (lambdaless : data.Lambdaless s.host)
    (defined : ∀ key nodes, s.partials.get? key = some nodes → ∀ node ∈ nodes, node.All Node.Spaced) :
    s.Lockstep s.unindented (fun _ => "") (Node.All Node.Spaced) (Value.Within s.host data)
      (Walk.Unindented s.host data) where
  inner good := good.inner
  partials found := defined _ _ found
  registry := by
    rintro key found rfl
    exact Entries.get_map _ key s.partials
  looks := by
    rintro node key raw w w' found middle - - ⟨inside, blanks, thinned, other⟩ looked
    obtain ⟨resolved, same⟩ := lookUp_journal looked
    refine ⟨{ w' with journal := middle.journal }, ?_, ?_⟩
    · have answered : s.unindented.host.resolve w'.frames key raw w'.journal =
          (found, middle.journal) := by
        rw [other]
        exact resolved
      rw [lookUp, answered]
    · rw [same]
      exact ⟨inside, blanks, thinned, by rw [other]⟩
  finds _ _ paired looked := lookUp_inside lambdaless paired.inside looked
  each within passes := Passes.each_within within passes
  pushes within paired := ⟨paired.inside.push within, paired.blanks, paired.thinned, by rw [paired.other]⟩
  pops paired := ⟨paired.inside.pop, paired.blanks, paired.thinned, by rw [paired.other]⟩
  refers good paired := by
    refine ⟨paired.inside, fun c member => ?_, paired.thinned, by rw [paired.other]; rfl⟩
    rw [String.toList_append] at member
    exact (List.mem_append.mp member).elim (paired.blanks c) (good.self c)
  returns outer inner := ⟨inner.inside, outer.blanks, inner.thinned, by rw [inner.other, outer.other]⟩
  texts {run w w'} _ paired := by
    refine ⟨paired.inside, paired.blanks, ?_, by rw [paired.other]; rfl⟩
    have plain : w'.indent = "" := by rw [paired.other]
    rw [Walk.writeText, Walk.writeText, plain, String.toList_append, String.toList_append]
    exact paired.thinned.append (Indent.apply_thinned paired.blanks run)
  shows {key escaped value w w'} _ _ paired := by
    refine ⟨paired.inside, paired.blanks, ?_, by rw [paired.other]; rfl⟩
    have plain : w'.indent = "" := by rw [paired.other]
    simp only [writeInterpolated, Walk.writeValue, plain, String.append_empty, String.append_assoc,
      String.toList_append]
    exact paired.thinned.append (.behind paired.blanks (.refl _))

end Setting

namespace Template

def unindented (t : Template) (documents : List (String × Document)) : Template :=
  ⟨(t.effective documents).unindented, t.options⟩

-- Indents only add blanks. Where no lambda is called, a render without the indents comes to the same end
-- and asks the same, and what it writes is what the render with them writes, with some blanks left out.
-- This is so however the partials are nested and however often they refer to each other.
theorem renderWith_unindented {options : Options}
    (compiled : (compileWith pair source).map (·.withOptions options) = .ok t)
    (read : readAll supplied = .ok documents) (lambdaless : Value.Lambdaless host data) (depth : Nat)
    (journal : Journal) :
    (∀ full after, t.renderWith host depth supplied data journal = (.ok full, after) → ∃ bare,
      (t.unindented documents).render host depth data journal = (.ok bare, after) ∧
      Thinned full.toList bare.toList ∧
      full.toList.filter (!isBlank ·) = bare.toList.filter (!isBlank ·)) ∧
    ∀ cause after, t.renderWith host depth supplied data journal = (.error cause, after) →
      (t.unindented documents).render host depth data journal = (.error cause, after) := by
  obtain ⟨parsed, rfl⟩ := document_of_compiled compiled
  have own := Document.spaced_parts parsed
  have given : ∀ entry ∈ documents, ∀ part ∈ entry.2.parts, part.Spaced := by
    intro entry member
    obtain ⟨text, -, parsed⟩ := readAll_ok read entry member
    exact Document.spaced_parts parsed
  let s := t.settingOf host documents
  have begins : Walk.Unindented host data (.start data journal) (.start data journal) :=
    ⟨.ofRoot, by simp [Walk.start], .refl _, rfl⟩
  obtain ⟨⟨-, -, thinned, other⟩, fault⟩ := Setting.walk_lockstep
    (Setting.lockstep_unindented (s := s) lambdaless (all_partials own given))
    (Document.all_root own) begins depth
  have bare : (t.unindented documents).render host depth data journal = resultOf
      (s.unindented.walk depth (Node.reindentAll (fun _ => "") t.document.root) (.start data journal)) :=
    rfl
  rw [bare, t.renderWith_walk host depth read]
  generalize s.walk depth t.document.root (.start data journal) = o at thinned other fault ⊢
  generalize s.unindented.walk depth _ (.start data journal) = o' at thinned other fault ⊢
  have journals : o'.walk.journal = o.walk.journal := by rw [other]
  refine ⟨fun text after result => ?_, fun cause after result => ?_⟩
  · obtain ⟨done, rfl, rfl⟩ := resultOf_ok result
    refine ⟨o'.walk.out, ?_, thinned, thinned.filter_eq⟩
    rw [resultOf, fault, done, journals]
  · obtain ⟨own, failed, rfl, rfl⟩ := resultOf_error result
    rw [resultOf, fault, failed, journals]

end Template

namespace Stepped

def source : String := "x\n \x7b\x7b>p\x7d\x7d\n"

def template : Template := ⟨⟨[.text "x\n", .reference "p" " "], []⟩, .standard⟩

def supplied : List (String × String) :=
  [("p", "a\n\t\x7b\x7b>q\x7d\x7d\nb\n"), ("q", "1\n\x7b\x7b.\x7d\x7d\n")]

def documents : List (String × Document) :=
  [("p", ⟨[.text "a\n", .reference "q" "\t", .text "b\n"], []⟩),
    ("q", ⟨[.text "1\n", .interpolation "." true, .text "\n"], []⟩)]

def full : String := "x\n a\n \t1\n \tv\n b\n"

def bare : String := "x\na\n1\nv\nb\n"

end Stepped

open Stepped in
theorem Template.renderWith_unindented_stepped :
    (compileWith .standard source).map (·.withOptions .standard) = .ok template ∧
    readAll supplied = .ok documents ∧ Value.Lambdaless .empty (.text "v") ∧
    template.renderWith .empty 3 supplied (.text "v") [] = (.ok full, []) ∧
    (template.unindented documents).render .empty 3 (.text "v") [] = (.ok bare, []) ∧
    Thinned full.toList bare.toList := by
  have compiled : (compileWith .standard source).map (·.withOptions .standard) = .ok template := by
    decide +kernel
  have read : readAll supplied = .ok documents := by decide +kernel
  have plain := Value.lambdaless_text .empty "v"
  have written : template.renderWith .empty 3 supplied (.text "v") [] = (.ok full, []) := by
    decide +kernel
  obtain ⟨shown, result, thinned, -⟩ :=
    (renderWith_unindented compiled read plain 3 []).1 full [] written
  have other : (template.unindented documents).render .empty 3 (.text "v") [] = (.ok bare, []) := by
    decide +kernel
  cases result.symm.trans other
  exact ⟨compiled, read, plain, written, other, thinned⟩

end Mustache
