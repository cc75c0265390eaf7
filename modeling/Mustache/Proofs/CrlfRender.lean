import Mustache.Proofs.CrlfDocument
import Mustache.Proofs.CrlfIndent
import Mustache.Proofs.Failure
import Mustache.Proofs.ValueText

namespace Mustache
open Text

def Node.Bare : Node → Prop
  | .text run => '\r' ∉ run.toList
  | .interpolation key _ | .block _ key _ _ _ => '\n' ∉ key.toList
  | .reference key indent => '\n' ∉ key.toList ∧ '\n' ∉ indent.toList

def OneLine (source : String) (pair : Delimiters) : Prop :=
  ∀ t ∈ (Scan.start source.toList pair).stretches,
    t.closing.body.head? ≠ some '!' → '\n' ∉ t.closing.body

theorem Document.bare_parts (parsed : parseWith pair source = .ok d) (words : pair.Words)
    (bare : '\r' ∉ source.toList) (oneLine : OneLine source pair) : ∀ part ∈ d.parts, part.Bare := by
  intro part member
  rcases parts_of_parsed parsed part member with ⟨run, rfl, sub⟩ | ⟨t, tag, meets, found, stems⟩
  · show '\r' ∉ _
    rw [String.toList_ofList]
    exact fun inside => bare (sub inside)
  · rw [t.tag_eq] at found
    have flat := oneLine t (Scan.mem_stretches meets words.clear.hasExtent) (Tag.not_comment found)
    have named {key : String} (own : tag.key? = some key) : '\n' ∉ key.toList :=
      fun inside => flat ((Tag.key_piece found own).subset inside)
    cases stems with
    | text => exact absurd found (Tag.ofBody_ne_text _ _ _ _ _)
    | interpolation => exact named rfl
    | block => exact named rfl
    | reference =>
      refine ⟨named rfl, fun inside => ?_⟩
      exact absurd (blank_of_parsed parsed member _ inside) (by decide)

namespace Setting

def crlf (s : Setting) : Setting := { s with partials := s.partials.rekey crlfText Node.crlfAll }

end Setting

def Task.crlf : Task → Task
  | .node one => .node one.crlf
  | .nodes row => .nodes (Node.crlfAll row)
  | .passes children items => .passes (Node.crlfAll children) items
  | .document row => .document (Node.crlfAll row)
  | .expansion body pair scope => .expansion (crlfText body) pair scope

structure Walk.Alike (one other : Walk) : Prop where
  frames : other.frames = one.frames
  indent : other.indent = one.indent
  journal : other.journal = one.journal

namespace Walk.Alike
variable {one other : Walk}

theorem push (alike : one.Alike other) (item : Value) :
    Alike { one with frames := one.frames.push item } { other with frames := other.frames.push item } :=
  ⟨by rw [alike.frames], alike.indent, alike.journal⟩

theorem pop (alike : one.Alike other) :
    Alike { one with frames := one.frames.pop } { other with frames := other.frames.pop } :=
  ⟨by rw [alike.frames], alike.indent, alike.journal⟩

theorem refer (alike : one.Alike other) (indent : String) :
    Alike { one with indent := one.indent ++ indent } { other with indent := other.indent ++ indent } :=
  ⟨alike.frames, by rw [alike.indent], alike.journal⟩

end Walk.Alike

-- A text that ends with two line breaks, inside an indented partial.
def Visit.Swells (v : Visit) : Prop :=
  ∃ run, v.node = .text run ∧ v.walk.indent ≠ "" ∧ ['\n', '\n'] <:+ run.toList

namespace Grows

theorem nothing : Grows [] [] (∀ v ∈ ([] : List Visit), ¬ v.Swells) := (Grows.self []).congr (by simp)

theorem behind (grows : Grows part part' (∀ v ∈ visits, ¬ Visit.Swells v))
    (other : ∀ run, node ≠ .text run) (w : Walk) :
    Grows part part' (∀ v ∈ ⟨node, w⟩ :: visits, ¬ Visit.Swells v) := by
  have plain : ¬ Visit.Swells ⟨node, w⟩ := fun ⟨run, same, _⟩ => other run same
  exact grows.congr ⟨fun rest => List.forall_mem_cons.mpr ⟨plain, rest⟩,
    fun all => (List.forall_mem_cons.mp all).2⟩

theorem along {visits more : List Visit} (first : Grows a a' (∀ v ∈ visits, ¬ Visit.Swells v))
    (later : Grows b b' (∀ v ∈ more, ¬ Visit.Swells v)) :
    Grows (a ++ b) (a' ++ b') (∀ v ∈ visits ++ more, ¬ Visit.Swells v) :=
  (first.append later).congr List.forall_mem_append.symm

end Grows

namespace Setting
variable {s : Setting} {data : Value} {depth : Nat}

theorem writes_flat
    (defined : ∀ key nodes, s.partials.get? key = some nodes → ∀ node ∈ nodes, node.All Node.Bare) :
    s.Writes (Node.All Node.Bare) (Value.Within s.host data)
      (fun indent _ => '\n' ∉ indent.toList) where
  inner bare := bare.inner
  partials found := defined _ _ found
  refers bare flat := by
    rw [String.toList_append, List.mem_append]
    exact fun found => found.elim flat bare.self.2
  returns outer _ := outer
  texts _ flat := flat
  shows _ _ flat := flat

theorem lookUp_crlf (lambdaless : Value.Lambdaless s.host data) (inside : w.frames.Inside s.host data)
    (alike : w.Alike w') (plain : '\n' ∉ key.toList) (raw' : String)
    (looked : s.lookUp w key raw = (found, middle)) : ∃ middle',
    s.crlf.lookUp w' (crlfText key) raw' = (found, middle') ∧ middle.Alike middle' ∧
      middle.out = w.out ∧ middle'.out = w'.out := by
  obtain ⟨asked, same⟩ := lookUp_journal looked
  rw [crlfText_of_notMem plain]
  refine ⟨{ w' with journal := middle.journal }, ?_, ?_, by rw [same], rfl⟩
  · have other := (inside.resolve lambdaless raw raw' key w.journal).1
    have host : s.crlf.host = s.host := rfl
    rw [lookUp, host, alike.frames, alike.journal, ← other, asked]
  · rw [same]
    exact ⟨alike.frames, alike.indent, rfl⟩

theorem writeInterpolated_crlf (alike : w.Alike w') (indent : '\n' ∉ w.indent.toList)
    (unbroken : Unbroken text.toList) (escaped : Bool) : ∃ part,
    (s.writeInterpolated escaped text w).out.toList = w.out.toList ++ part ∧
      (s.crlf.writeInterpolated escaped text w').out.toList = w'.out.toList ++ part ∧ '\n' ∉ part := by
  have shown : Unbroken (if escaped then s.options.escape.apply text else text).toList := by
    split
    · exact s.options.escape.apply_unbroken unbroken
    · exact unbroken
  refine ⟨w.indent.toList ++ (if escaped then s.options.escape.apply text else text).toList, ?_, ?_, ?_⟩
  · simp only [writeInterpolated, Walk.writeValue, String.toList_append, List.append_assoc]
  · have options : s.crlf.options = s.options := rfl
    simp only [writeInterpolated, Walk.writeValue, String.toList_append, List.append_assoc, alike.indent,
      options]
  · rw [List.mem_append]
    exact fun found => found.elim indent fun inside => (shown _ inside).1 rfl

inductive Beside (s : Setting) (depth : Nat) (task : Task) (w w' : Walk) (visits : List Visit)
    (o : Outcome) : Prop where
  | intro (course : s.crlf.Course depth task.crlf w' visits' ⟨last, o.fault⟩)
      (alike : o.walk.Alike last) (out : o.walk.out.toList = w.out.toList ++ part)
      (out' : last.out.toList = w'.out.toList ++ part')
      (grows : Grows part part' (∀ v ∈ visits, ¬ v.Swells)) : Beside s depth task w w' visits o

namespace Beside
variable {w w' middle middle' : Walk}

theorem still (alike : middle.Alike middle') (out : middle.out = w.out) (out' : middle'.out = w'.out)
    (other : ∀ run, node ≠ .text run)
    (course : s.crlf.Course depth (.node node.crlf) w' visits' middle'.done) :
    Beside s depth (.node node) w w' [⟨node, w⟩] middle.done := by
  have nothing : middle.out.toList = w.out.toList ++ [] := by rw [List.append_nil, out]
  have nothing' : middle'.out.toList = w'.out.toList ++ [] := by rw [List.append_nil, out']
  exact .intro course alike nothing nothing' (.behind .nothing other w)

theorem behind {inner : Task} (beside : Beside s depth inner middle middle' visits o)
    (out : middle.out = w.out) (out' : middle'.out = w'.out) (other : ∀ run, node ≠ .text run)
    (wraps : ∀ visits' last, s.crlf.Course depth inner.crlf middle' visits' ⟨last, o.fault⟩ →
      ∃ whole, s.crlf.Course depth (.node node.crlf) w' whole ⟨last, o.fault⟩) :
    Beside s depth (.node node) w w' (⟨node, w⟩ :: visits) o := by
  obtain ⟨course, alike, more, more', grows⟩ := beside
  obtain ⟨whole, course'⟩ := wraps _ _ course
  rw [out] at more
  rw [out'] at more'
  exact .intro course' alike more more' (grows.behind other w)

end Beside

theorem Course.beside (course : Course s depth task w visits o)
    (lambdaless : Value.Lambdaless s.host data) (lineless : Value.Lineless s.host data)
    (sorted : s.partials.Sorted)
    (defined : ∀ key nodes, s.partials.get? key = some nodes → ∀ node ∈ nodes, node.All Node.Bare)
    (admits : task.Admits (Node.All Node.Bare) (Value.Within s.host data) fun _ _ => False)
    (placed : w.frames.Inside s.host data ∧ '\n' ∉ w.indent.toList) (alike : w.Alike w') :
    Beside s depth task w w' visits o := by
  have writes : s.Writes _ (Value.Within s.host data) _ := writes_flat defined
  have keeps := writes.keeps lambdaless
  have partial' {key : String} (plain : '\n' ∉ key.toList) : s.crlf.partials.get? (crlfText key) =
      (s.partials.get? key).map Node.crlfAll := Entries.get_rekey Assembly.crlfText_injective sorted key
  induction course generalizing w' with
  | nil => exact .intro .nil alike (by simp [Walk.done]) (by simp) .nothing
  | cons begins later ih ih' =>
    obtain ⟨here, rest⟩ := List.forall_mem_cons.mp admits
    have reached := (begins.keeps keeps here placed).2
    obtain ⟨course, alike, out, out', grows⟩ := ih here placed alike
    obtain ⟨course2, alike2, out2, out2', grows2⟩ := ih' rest reached alike
    refine .intro (.cons course course2) alike2 ?_ ?_ (grows.along grows2)
    · rw [out2, out, List.append_assoc]
    · rw [out2', out', List.append_assoc]
  | stopped begins ih =>
    obtain ⟨course, alike, out, out', grows⟩ := ih (List.forall_mem_cons.mp admits).1 placed alike
    exact .intro (.stopped course) alike out out' grows
  | noPass => exact .intro .noPass alike (by simp [Walk.done]) (by simp) .nothing
  | pass begins later ih ih' =>
    obtain ⟨bare, within⟩ := admits
    obtain ⟨here, rest⟩ := List.forall_mem_cons.mp within
    have pushed := keeps.pushes here placed
    have reached := keeps.pops (begins.keeps keeps bare pushed).2
    obtain ⟨course, alike, out, out', grows⟩ := ih bare pushed (alike.push _)
    obtain ⟨course2, alike2, out2, out2', grows2⟩ := ih' ⟨bare, rest⟩ reached alike.pop
    refine .intro (.pass course course2) alike2 ?_ ?_ (grows.along grows2)
    · rw [out2, out, List.append_assoc]
    · rw [out2', out', List.append_assoc]
  | passStopped begins ih =>
    obtain ⟨bare, within⟩ := admits
    have pushed := keeps.pushes (List.forall_mem_cons.mp within).1 placed
    obtain ⟨course, alike, out, out', grows⟩ := ih bare pushed (alike.push _)
    exact .intro (.passStopped course) alike.pop out out' grows
  | tooDeep => exact .intro .tooDeep alike (by simp) (by simp) .nothing
  | document inner ih =>
    obtain ⟨course, alike, out, out', grows⟩ := ih admits placed alike
    exact .intro (.document course) alike out out' grows
  | refused read => exact admits.elim
  | expanded read inner ih => exact admits.elim
  | @text depth run w =>
    refine .intro .text ⟨alike.frames, alike.indent, alike.journal⟩ (String.toList_append ..)
      (String.toList_append ..) ?_
    rw [alike.indent]
    refine (Indent.apply_crlf w.indent run placed.2 admits.self).congr ?_
    simp [Visit.Swells]
  | silent looked nothing =>
    obtain ⟨middle', looked', alike, out, out'⟩ :=
      lookUp_crlf lambdaless placed.1 alike admits.self "" looked
    exact .still alike out out' nofun (.silent looked' nothing)
  | value looked shown =>
    obtain ⟨middle', looked', alike, out, out'⟩ :=
      lookUp_crlf lambdaless placed.1 alike admits.self "" looked
    have reached := keeps.looks placed looked
    obtain ⟨part, more, more', flat⟩ := writeInterpolated_crlf alike reached.2
      (lineless.toText (keeps.finds placed looked)) _
    rw [out] at more
    rw [out'] at more'
    exact .intro (.value looked' shown) ⟨alike.frames, alike.indent, alike.journal⟩ more more'
      (.behind ((Grows.unbroken flat).congr (by simp)) (by simp) _)
  | interpolated looked inner ih => exact (keeps.sends placed looked).elim
  | interpolationFailed looked inner ih => exact (keeps.sends placed looked).elim
  | skipped looked nothing =>
    obtain ⟨middle', looked', alike, out, out'⟩ :=
      lookUp_crlf lambdaless placed.1 alike admits.self _ looked
    exact .still alike out out' nofun (.skipped looked' nothing)
  | once looked passes inner ih =>
    obtain ⟨middle', looked', alike, out, out'⟩ :=
      lookUp_crlf lambdaless placed.1 alike admits.self _ looked
    have beside := ih admits.inner (keeps.looks placed looked) alike
    exact beside.behind out out' nofun fun _ _ course => ⟨_, .once looked' passes course⟩
  | each looked passes inner ih =>
    obtain ⟨middle', looked', alike, out, out'⟩ :=
      lookUp_crlf lambdaless placed.1 alike admits.self _ looked
    have within := keeps.each (keeps.finds placed looked) passes
    have beside := ih ⟨admits.inner, within⟩ (keeps.looks placed looked) alike
    exact beside.behind out out' nofun fun _ _ course => ⟨_, .each looked' passes course⟩
  | replaced looked inner ih => exact (keeps.sends placed looked).elim
  | sectionFailed looked inner ih => exact (keeps.sends placed looked).elim
  | inverse looked nothing inner ih =>
    obtain ⟨middle', looked', alike, out, out'⟩ :=
      lookUp_crlf lambdaless placed.1 alike admits.self _ looked
    have beside := ih admits.inner (keeps.looks placed looked) alike
    exact beside.behind out out' nofun fun _ _ course => ⟨_, .inverse looked' nothing course⟩
  | notInverse looked something =>
    obtain ⟨middle', looked', alike, out, out'⟩ :=
      lookUp_crlf lambdaless placed.1 alike admits.self _ looked
    exact .still alike out out' nofun (.notInverse looked' something)
  | absent missing =>
    have missing' := partial' admits.self.1
    rw [missing] at missing'
    exact .still alike rfl rfl nofun (.absent missing')
  | referred found inner ih =>
    have found' := partial' admits.self.1
    rw [found] at found'
    obtain ⟨course, inner, out, out', grows⟩ :=
      ih (defined _ _ found) (keeps.refers admits placed) (alike.refer _)
    have course' := Course.referred found' course
    refine .intro course' ?_ out out' (grows.behind (by simp) _)
    exact ⟨inner.frames, alike.indent, inner.journal⟩

end Setting

theorem Document.sorted_of_parsed (parsed : parseWith pair source = .ok d) : d.partials.Sorted := by
  obtain ⟨-, built⟩ := parseWith_eq_ok_iff.mp parsed
  obtain ⟨definitions, -, -, partials⟩ := balanced_of_items built
  rw [partials]
  exact Entries.sorted_ofPairs definitions

namespace Template

-- Rendering commutes with the conversion of line ends exactly if no text that ends with two line
-- breaks is written inside an indented partial. There the converted template gets one more indent,
-- between these two breaks. In every other respect its render is that of the template.
theorem render_crlf_iff {options : Options}
    (compiled : (compileWith pair source).map (·.withOptions options) = .ok t) (words : pair.Words)
    (bare : '\r' ∉ source.toList) (oneLine : OneLine source pair)
    (lambdaless : Value.Lambdaless host data) (lineless : Value.Lineless host data)
    (rendered : t.render host depth data journal = (.ok text, after)) : ∃ u visits outcome shown,
    (compileWith pair (crlfText source)).map (·.withOptions options) = .ok u ∧
      (t.settingOf host []).Course depth (.document t.document.root) (.start data journal) visits outcome ∧
      u.render host depth data journal = (.ok shown, after) ∧
      (shown = crlfText text ↔ ∀ v ∈ visits, ¬ v.Swells) := by
  obtain ⟨parsed, rfl⟩ := document_of_compiled compiled
  have parts := Document.bare_parts parsed words bare oneLine
  obtain ⟨visits, outcome, course, -, result, -⟩ := t.render_course lambdaless depth journal
  have defined : ∀ key nodes, (t.settingOf host []).partials.get? key = some nodes →
      ∀ node ∈ nodes, node.All Node.Bare := all_partials parts (by simp)
  obtain @⟨_, last, _, _, course', alike, out, out', grows⟩ := course.beside lambdaless lineless
    (Document.sorted_of_parsed parsed) defined (Document.all_root parts) ⟨.ofRoot, by simp [Walk.start]⟩
    ⟨rfl, rfl, rfl⟩
  have again := Document.parse_converted words bare
  rw [parsed] at again
  have compiled' : (compileWith pair (crlfText source)).map (·.withOptions t.options) =
      .ok ⟨t.document.crlf, t.options⟩ := by
    rw [compileWith, again]
    rfl
  obtain ⟨visits', walked⟩ := Setting.walk_course (t.settingOf host []).crlf depth t.document.crlf.root
    (.start data journal)
  have same := (course'.unique walked).2
  rw [result] at rendered
  obtain ⟨settled, rfl, rfl⟩ := resultOf_ok rendered
  have shown : (Template.mk t.document.crlf t.options).render host depth data journal = _ :=
    congrArg resultOf same.symm
  rw [resultOf, settled] at shown
  refine ⟨_, visits, outcome, last.out, compiled', course, ?_, ?_⟩
  · rw [alike.journal] at shown
    exact shown
  · rw [← grows.same_iff, ← String.toList_inj, toList_crlfText, out, out']
    rfl

end Template

namespace Indented

def source : String := "\x7b\x7b<p\x7d\x7da\nb\n\x7b\x7b/p\x7d\x7d\n  \x7b\x7b>p\x7d\x7d\n\x7b\x7b.\x7d\x7d"

def template : Template :=
  ⟨⟨[.reference "p" "  ", .interpolation "." true], [("p", [.text "a\nb\n"])]⟩, ⟨.html⟩⟩

theorem compiled : (Template.compileWith .standard source).map (·.withOptions ⟨.html⟩) =
    .ok template := by decide +kernel

theorem oneLine : OneLine source .standard := by
  unfold OneLine
  decide +kernel

theorem lineless : Value.Lineless .empty (.text "v") :=
  Value.lineless_text .empty (by decide)

end Indented

open Indented in
theorem Template.render_crlf_iff_indented :
    (compileWith .standard source).map (·.withOptions ⟨.html⟩) = .ok template ∧
    Delimiters.standard.Words ∧ '\r' ∉ source.toList ∧ OneLine source .standard ∧
    Value.Lambdaless .empty (.text "v") ∧ Value.Lineless .empty (.text "v") ∧
    template.render .empty 3 (.text "v") [] = (.ok "  a\n  b\nv", []) ∧
    ∃ u visits outcome, (compileWith .standard (crlfText source)).map (·.withOptions ⟨.html⟩) = .ok u ∧
      (template.settingOf .empty []).Course 3 (.document template.document.root)
        (.start (.text "v") []) visits outcome ∧
      u.render .empty 3 (.text "v") [] = (.ok "  a\r\n  b\r\nv", []) ∧ ∀ v ∈ visits, ¬ v.Swells := by
  have bare : '\r' ∉ source.toList := by decide
  have plain := Value.lambdaless_text .empty "v"
  have rendered : template.render .empty 3 (.text "v") [] = (.ok "  a\n  b\nv", []) := by decide +kernel
  obtain ⟨u, visits, outcome, shown, compiled', course, rendered', same⟩ :=
    render_crlf_iff compiled Delimiters.standard_words bare oneLine plain lineless rendered
  obtain rfl : u = ⟨template.document.crlf, ⟨.html⟩⟩ := by
    have converted : (compileWith .standard (crlfText source)).map (·.withOptions ⟨.html⟩) =
        .ok ⟨template.document.crlf, ⟨.html⟩⟩ := by decide +kernel
    exact Except.ok.inj (compiled'.symm.trans converted)
  obtain rfl : shown = "  a\r\n  b\r\nv" := by
    have found : Template.render ⟨template.document.crlf, ⟨.html⟩⟩ .empty 3 (.text "v") [] =
        (.ok "  a\r\n  b\r\nv", []) := by decide +kernel
    exact Except.ok.inj (congrArg Prod.fst (rendered'.symm.trans found))
  exact ⟨compiled, Delimiters.standard_words, bare, oneLine, plain, lineless, rendered, _, _, _,
    compiled', course, rendered', same.mp (by decide)⟩

namespace BlankEnd

def source : String := "\x7b\x7b<p\x7d\x7da\n\n\x7b\x7b/p\x7d\x7d\n  \x7b\x7b>p\x7d\x7d"

def parsed : Document := ⟨[.reference "p" "  "], [("p", [.text "a\n\n"])]⟩

theorem oneLine : OneLine source .standard := by
  unfold OneLine
  decide +kernel

end BlankEnd

-- The empty line at the end of the partial is indented only in the converted template.
open BlankEnd in
theorem Template.render_crlf_blank_end : ∃ t u : Template,
    '\r' ∉ source.toList ∧ OneLine source .standard ∧
    Value.Lambdaless .empty (.text "v") ∧ Value.Lineless .empty (.text "v") ∧
    compile source = .ok t ∧ compile (crlfText source) = .ok u ∧
    t.render .empty 3 (.text "v") [] = (.ok "  a\n\n", []) ∧
    u.render .empty 3 (.text "v") [] = (.ok "  a\r\n  \r\n", []) ∧
    "  a\r\n  \r\n" ≠ crlfText "  a\n\n" := by
  refine ⟨⟨parsed, .standard⟩, ⟨parsed.crlf, .standard⟩, by decide, oneLine,
    Value.lambdaless_text .empty "v", Indented.lineless, ?_⟩
  exact ⟨by decide +kernel, by decide +kernel, by decide +kernel, by decide +kernel, by decide⟩

end Mustache
