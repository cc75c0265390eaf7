import Mustache.Proofs.Failure

namespace Mustache
open Text

namespace Escape

inductive Escaped : List Char → Prop where
  | nil : Escaped []
  | plain (other : c ∉ marks) (later : Escaped text) : Escaped (c :: text)
  | entity (mark : c ∈ marks) (later : Escaped text) : Escaped (entity c ++ text)

namespace Escaped

theorem append (first : Escaped a) (second : Escaped b) : Escaped (a ++ b) := by
  induction first with
  | nil => exact second
  | plain other later ih => exact .plain other ih
  | entity mark later ih =>
    rw [List.append_assoc]
    exact .entity mark ih

theorem of_notMem (free : ∀ c ∈ text, c ∉ marks) : Escaped text := by
  induction text with
  | nil => exact .nil
  | cons c text ih =>
    obtain ⟨here, rest⟩ := List.forall_mem_cons.mp free
    exact .plain here (ih rest)

theorem flatMap (text : List Char) : Escaped (text.flatMap Escape.entity) := by
  induction text with
  | nil => exact .nil
  | cons c text ih =>
    rw [List.flatMap_cons]
    by_cases mark : c ∈ marks
    · exact .entity mark ih
    · rw [entity_of_notMem mark]
      exact .plain mark ih

def names : List String := ["amp;", "lt;", "gt;", "quot;", "#39;"]

theorem entity_of_mem (mark : c ∈ marks) : ∃ name ∈ names, Escape.entity c = '&' :: name.toList ∧
    ∀ d ∈ name.toList, d ∉ marks := by
  simp only [marks, List.mem_cons, List.not_mem_nil, or_false] at mark
  rcases mark with rfl | rfl | rfl | rfl | rfl
  · exact ⟨"amp;", by simp [names], rfl, by simp [marks]⟩
  · exact ⟨"lt;", by simp [names], rfl, by simp [marks]⟩
  · exact ⟨"gt;", by simp [names], rfl, by simp [marks]⟩
  · exact ⟨"quot;", by simp [names], rfl, by simp [marks]⟩
  · exact ⟨"#39;", by simp [names], rfl, by simp [marks]⟩

theorem safe (escaped : Escaped text) : (∀ c ∈ text, c ∈ marks → c = '&') ∧
    ∀ before after, text = before ++ '&' :: after →
      ∃ name ∈ names, name.toList <+: after := by
  induction escaped with
  | nil => simp
  | plain other later ih =>
    obtain ⟨only, starts⟩ := ih
    refine ⟨fun c member mark => ?_, fun before after parts => ?_⟩
    · rcases List.mem_cons.mp member with rfl | member
      · exact absurd mark other
      · exact only c member mark
    · cases before with
      | nil =>
        cases parts
        exact absurd (by decide) other
      | cons d before =>
        cases parts
        exact starts before after rfl
  | @entity c text mark later ih =>
    obtain ⟨only, starts⟩ := ih
    obtain ⟨name, known, same, free⟩ := entity_of_mem mark
    rw [same]
    refine ⟨fun d member mark => ?_, fun before after parts => ?_⟩
    · rcases List.mem_cons.mp member with rfl | member
      · rfl
      · rcases List.mem_append.mp member with member | member
        · exact absurd mark (free d member)
        · exact only d member mark
    · cases before with
      | nil =>
        cases parts
        exact ⟨name, known, List.prefix_append _ _⟩
      | cons d before =>
        simp only [List.cons_append, List.cons.injEq] at parts
        obtain ⟨-, parts⟩ := parts
        rcases List.append_eq_append_iff.mp parts with ⟨more, rfl, rest⟩ | ⟨more, split, rest⟩
        · exact starts more after rest
        · cases more with
          | nil => exact starts [] after rest.symm
          | cons e more =>
            obtain ⟨rfl, -⟩ := List.cons.inj rest
            exact absurd (by decide) (free '&' (by simp [split]))

end Escaped
end Escape

namespace Indent

theorem mem_linesFrom (member : c ∈ linesFrom indent done text) : c ∈ done ∨ c ∈ indent ∨ c ∈ text := by
  induction text generalizing done with
  | nil => exact Or.inl (List.mem_reverse.mp member)
  | cons d text ih =>
    unfold linesFrom at member
    split at member
    · rcases ih member with found | found | found
      · rcases List.mem_append.mp found with found | found
        · exact Or.inr (Or.inl (List.mem_reverse.mp found))
        · rcases List.mem_cons.mp found with rfl | found
          · exact Or.inr (Or.inr List.mem_cons_self)
          · exact Or.inl found
      · exact Or.inr (Or.inl found)
      · exact Or.inr (Or.inr (List.mem_cons_of_mem _ found))
    · rcases ih member with found | found | found
      · rcases List.mem_cons.mp found with rfl | found
        · exact Or.inr (Or.inr List.mem_cons_self)
        · exact Or.inl found
      · exact Or.inr (Or.inl found)
      · exact Or.inr (Or.inr (List.mem_cons_of_mem _ found))

theorem mem_apply (member : c ∈ (apply indent text).toList) : c ∈ indent.toList ∨ c ∈ text.toList := by
  unfold apply at member
  split at member
  · exact Or.inr member
  · rw [String.toList_ofList, lines] at member
    rcases mem_linesFrom member with found | found
    · split at found
      · cases found
      · exact Or.inl (List.mem_reverse.mp found)
    · exact found

end Indent

def Node.Escapes : Node → Prop
  | .text run => ∀ c ∈ run.toList, c ∉ Escape.marks
  | .interpolation _ escaped => escaped = true
  | _ => True

def Node.Spaced : Node → Prop
  | .reference _ indent => ∀ c ∈ indent.toList, isBlank c = true
  | _ => True

theorem Document.spaced_parts (parsed : parseWith pair source = .ok d) : ∀ part ∈ d.parts, part.Spaced := by
  intro part member
  cases part with
  | reference key indent => exact blank_of_parsed parsed member
  | _ => trivial

theorem notMem_marks_of_blank (blank : isBlank c = true) : c ∉ Escape.marks := by
  rcases isBlank_iff.mp blank with rfl | rfl | rfl | rfl <;> decide

-- Blanks as the indent, and nothing but escaped text behind it.
structure Escape.Safe (indent out : String) : Prop where
  indent : ∀ c ∈ indent.toList, isBlank c = true
  out : Escaped out.toList

theorem Escape.Safe.indented (safe : Escape.Safe blanks written) : Escaped blanks.toList :=
  .of_notMem fun c member => notMem_marks_of_blank (safe.indent c member)

namespace Setting
variable {s : Setting} {data : Value}

theorem writes_safe (html : s.options.escape = .html)
    (defined : ∀ key nodes, s.partials.get? key = some nodes →
      ∀ node ∈ nodes, node.All Node.Escapes ∧ node.All Node.Spaced) :
    s.Writes (fun node => node.All Node.Escapes ∧ node.All Node.Spaced) (Value.Within s.host data)
      Escape.Safe where
  inner good node member := ⟨good.1.inner node member, good.2.inner node member⟩
  partials found := defined _ _ found
  refers good safe := by
    refine ⟨fun c member => ?_, safe.out⟩
    rw [String.toList_append] at member
    exact (List.mem_append.mp member).elim (safe.indent c) (good.2.self c)
  returns outer inner := ⟨outer.indent, inner.out⟩
  texts good safe := by
    refine ⟨safe.indent, ?_⟩
    rw [String.toList_append]
    refine safe.out.append (.of_notMem fun c member => ?_)
    rcases Indent.mem_apply member with found | found
    · exact notMem_marks_of_blank (safe.indent c found)
    · exact good.1.self c found
  shows good within safe := by
    have escaped : _ = true := good.1.self
    refine ⟨safe.indent, ?_⟩
    simp only [escaped, if_true, html, Escape.apply, String.toList_append, Escape.toList_escapeHtml]
    exact (safe.out.append safe.indented).append (.flatMap _)

end Setting

namespace Template

def effective (t : Template) (documents : List (String × Document)) : Document :=
  ⟨t.document.root, overlay t.document.partials documents⟩

-- Where all texts are free of the characters with a meaning in HTML, all interpolations are escaped
-- and no lambda is called, a render writes none of these characters but ampersands that start an
-- entity.
theorem entities_of_render {options : Options}
    (compiled : (compileWith pair source).map (·.withOptions options) = .ok t)
    (html : options.escape = .html) (read : readAll supplied = .ok documents)
    (escapes : ∀ part ∈ (t.effective documents).parts, part.Escapes)
    (lambdaless : Value.Lambdaless host data)
    (rendered : t.renderWith host depth supplied data journal = (.ok text, after)) :
    (∀ c ∈ text.toList, c ≠ '<' ∧ c ≠ '>' ∧ c ≠ '"' ∧ c ≠ '\'') ∧
    ∀ before behind, text.toList = before ++ '&' :: behind →
      ∃ name ∈ ["amp;", "lt;", "gt;", "quot;", "#39;"], name.toList <+: behind := by
  obtain ⟨parsed, rfl⟩ := document_of_compiled compiled
  obtain ⟨visits, outcome, course, result⟩ := t.renderWith_course host depth read data journal
  have own := Document.spaced_parts parsed
  have given : ∀ entry ∈ documents, ∀ part ∈ entry.2.parts, part.Spaced := by
    intro entry member
    obtain ⟨text, -, parsed⟩ := readAll_ok read entry member
    exact Document.spaced_parts parsed
  have root : ∀ node ∈ t.document.root, node.All Node.Escapes ∧ node.All Node.Spaced :=
    fun node member => ⟨Document.all_root (d := t.effective documents) escapes node member,
      Document.all_root own node member⟩
  have defined : ∀ key nodes, (t.settingOf host documents).partials.get? key = some nodes →
      ∀ node ∈ nodes, node.All Node.Escapes ∧ node.All Node.Spaced := by
    intro key nodes found node member
    have known := Entries.mem_of_get found
    exact ⟨Document.all_partials (d := t.effective documents) escapes known node member,
      all_partials own given key nodes found node member⟩
  have writes : (t.settingOf host documents).Writes _ (Value.Within host data) _ :=
    Setting.writes_safe html defined
  have begins : Escape.Safe "" "" := ⟨by simp, .nil⟩
  obtain ⟨-, -, safe⟩ := course.keeps (writes.keeps lambdaless) root ⟨.ofRoot, begins⟩
  rw [result] at rendered
  obtain ⟨-, rfl, -⟩ := resultOf_ok rendered
  obtain ⟨only, starts⟩ := safe.out.safe
  refine ⟨fun c member => ?_, starts⟩
  have free (mark : c ∈ Escape.marks) (other : c ≠ '&') : False := other (only c member mark)
  refine ⟨?_, ?_, ?_, ?_⟩ <;> rintro rfl <;> exact free (by decide) (by decide)

end Template

namespace Quoted

def source : String := "x\n \x7b\x7b>p\x7d\x7d\n\x7b\x7b.\x7d\x7d"

def template : Template :=
  ⟨⟨[.text "x\n", .reference "p" " ", .interpolation "." true], []⟩, ⟨.html⟩⟩

def supplied : List (String × String) := [("p", "y\n\x7b\x7b.\x7d\x7d\n")]

def documents : List (String × Document) :=
  [("p", ⟨[.text "y\n", .interpolation "." true, .text "\n"], []⟩)]

def data : Value := .text "<'&'>\""

def shown : String :=
  "x\n y\n &lt;&#39;&amp;&#39;&gt;&quot;\n&lt;&#39;&amp;&#39;&gt;&quot;"

theorem compiled : (Template.compileWith .standard source).map (·.withOptions ⟨.html⟩) =
    .ok template := by decide +kernel

theorem escapes : ∀ part ∈ (template.effective documents).parts, part.Escapes := by
  have whole : (template.effective documents).parts =
      [.text "x\n", .reference "p" " ", .interpolation "." true, .text "y\n", .interpolation "." true,
        .text "\n"] := by decide +kernel
  rw [whole]
  simp [Node.Escapes, Escape.marks]

end Quoted

open Quoted in
theorem Template.entities_of_render_quoted :
    (compileWith .standard source).map (·.withOptions ⟨.html⟩) = .ok template ∧
    readAll supplied = .ok documents ∧
    (∀ part ∈ (template.effective documents).parts, part.Escapes) ∧
    Value.Lambdaless .empty data ∧
    template.renderWith .empty 2 supplied data [] = (.ok shown, []) ∧
    ∀ c ∈ shown.toList, c ≠ '<' ∧ c ≠ '>' ∧ c ≠ '"' ∧ c ≠ '\'' := by
  have done : readAll supplied = .ok documents := by decide +kernel
  have rendered : template.renderWith .empty 2 supplied data [] = (.ok shown, []) := by decide +kernel
  have plain := Value.lambdaless_text .empty "<'&'>\""
  exact ⟨compiled, done, escapes, plain, rendered,
    (entities_of_render compiled rfl done escapes plain rendered).1⟩

end Mustache
