import Mustache.Host.Script
import Mustache.Proofs.Failure

namespace Mustache

namespace Setting
variable {s : Setting} {depth : Nat}

-- The part of a course that belongs to a node: the visits of the node and of all that is walked for it,
-- in one piece.
def At (s : Setting) (depth : Nat) (v : Visit) (visits : List Visit) : Prop :=
  ∃ below inner o, below ≤ depth ∧ s.Course below (.node v.node) v.walk (v :: inner) o ∧
    v :: inner <:+: visits

theorem At.wider (here : s.At depth v visits) (deeper : depth ≤ bound) (sub : visits <:+: more) :
    s.At bound v more := by
  obtain ⟨below, inner, o, least, course, within⟩ := here
  exact ⟨below, inner, o, Nat.le_trans least deeper, course, within.trans sub⟩

theorem Course.at_visit (course : s.Course depth task w visits o) :
    ∀ v ∈ visits, s.At depth v visits := by
  have both {depth : Nat} {one other : List Visit} (first : ∀ v ∈ one, s.At depth v one)
      (later : ∀ v ∈ other, s.At depth v other) : ∀ v ∈ one ++ other, s.At depth v (one ++ other) := by
    intro v member
    rcases List.mem_append.mp member with member | member
    · exact (first v member).wider (Nat.le_refl _) (List.prefix_append one other).isInfix
    · exact (later v member).wider (Nat.le_refl _) (List.suffix_append one other).isInfix
  have node {depth : Nat} {v : Visit} {inner : List Visit} {o : Outcome}
      (course : s.Course depth (.node v.node) v.walk (v :: inner) o)
      (further : ∀ u ∈ inner, s.At depth u inner) : ∀ u ∈ v :: inner, s.At depth u (v :: inner) :=
    List.forall_mem_cons.mpr ⟨⟨depth, inner, o, Nat.le_refl _, course, List.infix_rfl⟩, fun u member =>
      (further u member).wider (Nat.le_refl _) (List.suffix_cons v inner).isInfix⟩
  have none {P : Visit → Prop} : ∀ v ∈ ([] : List Visit), P v := fun v member => by cases member
  induction course with
  | nil | noPass | tooDeep | refused => exact none
  | cons first later ih ih' | pass first later ih ih' => exact both ih ih'
  | stopped first ih | passStopped first ih => exact ih
  | document inner ih =>
    exact fun v member => (ih v member).wider (Nat.le_succ _) List.infix_rfl
  | expanded read inner ih => exact ih
  | text => exact node .text none
  | silent looked nothing => exact node (.silent looked nothing) none
  | value looked shown => exact node (.value looked shown) none
  | interpolated looked inner ih => exact node (.interpolated looked inner) ih
  | interpolationFailed looked inner ih => exact node (.interpolationFailed looked inner) ih
  | skipped looked nothing => exact node (.skipped looked nothing) none
  | once looked passes inner ih => exact node (.once looked passes inner) ih
  | each looked passes inner ih => exact node (.each looked passes inner) ih
  | replaced looked inner ih => exact node (.replaced looked inner) ih
  | sectionFailed looked inner ih => exact node (.sectionFailed looked inner) ih
  | inverse looked nothing inner ih => exact node (.inverse looked nothing inner) ih
  | notInverse looked something => exact node (.notInverse looked something) none
  | absent missing => exact node (.absent missing) none
  | referred found inner ih => exact node (.referred found inner) ih

-- Every reference that a walk comes to, wherever it stands, leads to what the registry has under its
-- name: the nodes found there are walked next, in the state of the reference and further indented.
-- Where nothing is found nothing is done.
def Resolves (s : Setting) (registry : Entries (List Node)) (depth : Nat) (visits : List Visit) :
    Prop :=
  ∀ key indent w, ⟨.reference key indent, w⟩ ∈ visits →
    (registry.get? key = none → ∃ below ≤ depth,
      s.Course below (.node (.reference key indent)) w [⟨.reference key indent, w⟩] w.done) ∧
    ∀ nodes, registry.get? key = some nodes → ∃ below ≤ depth, ∃ inner o,
      s.Course below (.document nodes) { w with indent := w.indent ++ indent } inner o ∧
        ⟨.reference key indent, w⟩ :: inner <:+: visits

theorem Course.resolves (course : s.Course depth task w visits o)
    (same : ∀ key, registry.get? key = s.partials.get? key) : s.Resolves registry depth visits := by
  intro key indent w member
  obtain ⟨below, inner, o, least, here, within⟩ := course.at_visit _ member
  rw [same key]
  cases here with
  | absent missing =>
    exact ⟨fun _ => ⟨below, least, .absent missing⟩, fun nodes found => by simp [missing] at found⟩
  | referred found inner =>
    refine ⟨fun missing => by simp [missing] at found, fun nodes own => ?_⟩
    rw [found] at own
    cases own
    exact ⟨below, least, _, _, inner, within⟩

theorem showPartial_congr (same : ∀ key, registry.get? key = s.partials.get? key)
    (enter : List Node → Walk → Outcome) (key indent : String) (w : Walk) :
    { s with partials := registry }.showPartial enter key indent w =
      s.showPartial enter key indent w := by
  simp only [showPartial, same]

mutual
theorem visit_congr (same : ∀ key, registry.get? key = s.partials.get? key)
    (enter : List Node → Walk → Outcome) (node : Node) (w : Walk) :
    { s with partials := registry }.visit enter node w = s.visit enter node w := by
  cases node with
  | text run => rfl
  | interpolation key escaped => rfl
  | block inverted key children raw pair =>
    have body : { s with partials := registry }.visitAll enter children =
        s.visitAll enter children := funext (visitAll_congr same enter children)
    rw [visit, visit, body]
    rfl
  | reference key indent => exact showPartial_congr same enter key indent w
theorem visitAll_congr (same : ∀ key, registry.get? key = s.partials.get? key)
    (enter : List Node → Walk → Outcome) (nodes : List Node) (w : Walk) :
    { s with partials := registry }.visitAll enter nodes w = s.visitAll enter nodes w := by
  cases nodes with
  | nil => rfl
  | cons node rest =>
    rw [visitAll, visitAll, visit_congr same enter node w]
    rcases s.visit enter node w with ⟨middle, _ | fault⟩
    · exact visitAll_congr same enter rest middle
    · rfl
end

theorem walk_congr (same : ∀ key, registry.get? key = s.partials.get? key) (depth : Nat)
    (nodes : List Node) (w : Walk) :
    { s with partials := registry }.walk depth nodes w = s.walk depth nodes w := by
  induction depth generalizing nodes w with
  | zero => rfl
  | succ depth ih =>
    have enter : { s with partials := registry }.walk depth = s.walk depth :=
      funext fun nodes => funext (ih nodes)
    rw [walk, walk, enter]
    exact visitAll_congr same (s.walk depth) nodes w

end Setting

namespace Template
open Entries

-- The partials in effect: under the name of a supplied text the root of its document, and under any
-- other name what the template defines itself.
structure Layered (own : Entries (List Node)) (supplied : List (String × String))
    (registry : Entries (List Node)) : Prop where
  given : ∀ name text d, (name, text) ∈ supplied → Document.parse text = .ok d →
    registry.get? name = some d.root
  kept : ∀ name, name ∉ supplied.map Prod.fst → registry.get? name = own.get? name

def Legible (supplied : List (String × String)) : Prop :=
  ∀ entry ∈ supplied, ∃ d, Document.parse entry.2 = .ok d

def withPartials (t : Template) (registry : Entries (List Node)) : Template :=
  { t with document := { t.document with partials := registry } }

theorem Layered.perm (layered : Layered own supplied registry) (perm : order.Perm supplied) :
    Layered own order registry where
  given name text d member parsed := layered.given name text d (perm.mem_iff.mp member) parsed
  kept name absent := layered.kept name fun member =>
    absent ((perm.map Prod.fst).mem_iff.mpr member)

theorem Layered.agree (one : Layered own supplied registry) (other : Layered own supplied registry')
    (legible : Legible supplied) (name : String) : registry.get? name = registry'.get? name := by
  by_cases known : name ∈ supplied.map Prod.fst
  · obtain ⟨⟨same, text⟩, member, rfl⟩ := List.mem_map.mp known
    obtain ⟨d, parsed⟩ := legible _ member
    rw [one.given _ _ _ member parsed, other.given _ _ _ member parsed]
  · rw [one.kept name known, other.kept name known]

theorem readAll_of_legible (legible : Legible supplied) : ∃ documents, readAll supplied = .ok documents := by
  cases read : readAll supplied with
  | ok documents => exact ⟨documents, rfl⟩
  | error cause =>
    obtain ⟨entry, member, unread⟩ := readAll_error read
    obtain ⟨d, parsed⟩ := legible entry member
    rw [parsed] at unread
    cases unread

theorem legible_of_readAll (read : readAll supplied = .ok documents) : Legible supplied := by
  induction supplied generalizing documents with
  | nil => exact List.forall_mem_nil _
  | cons entry rest ih =>
    obtain ⟨d, others, parsed, found, -⟩ := readAll_cons read
    exact List.forall_mem_cons.mpr ⟨⟨d, parsed⟩, ih found⟩

theorem readAll_names (read : readAll supplied = .ok documents) :
    documents.map Prod.fst = supplied.map Prod.fst := by
  induction supplied generalizing documents with
  | nil =>
    cases read
    rfl
  | cons entry rest ih =>
    obtain ⟨d, others, -, found, rfl⟩ := readAll_cons read
    rw [List.map_cons, ih found, List.map_cons]

theorem readAll_mem (read : readAll supplied = .ok documents) (member : (name, text) ∈ supplied)
    (parsed : Document.parse text = .ok d) : (name, d) ∈ documents := by
  induction supplied generalizing documents with
  | nil => cases member
  | cons entry rest ih =>
    obtain ⟨own, others, here, found, rfl⟩ := readAll_cons read
    rcases List.mem_cons.mp member with rfl | member
    · rw [parsed] at here
      cases here
      exact List.mem_cons_self
    · exact List.mem_cons_of_mem _ (ih found member)

theorem overlay_eq_insertAll (own : Entries (List Node)) (documents : List (String × Document)) :
    overlay own documents = own.insertAll (documents.map fun entry => (entry.1, entry.2.root)) := by
  rw [overlay, insertAll, List.foldl_map]

theorem overlay_layered (distinct : (supplied.map Prod.fst).Nodup)
    (read : readAll supplied = .ok documents) (own : Entries (List Node)) :
    Layered own supplied (overlay own documents) := by
  have names : (documents.map fun entry => (entry.1, entry.2.root)).map Prod.fst =
      supplied.map Prod.fst := by
    rw [← readAll_names read, List.map_map]
    rfl
  refine ⟨fun name text d member parsed => ?_, fun name absent => ?_⟩
  · rw [overlay_eq_insertAll]
    refine get_insertAll_of_mem (names ▸ distinct) ?_ own
    exact List.mem_map.mpr ⟨_, readAll_mem read member parsed, rfl⟩
  · rw [overlay_eq_insertAll]
    exact get_insertAll_of_notMem (names ▸ absent) own

-- A render with supplied texts is the render of the template whose own partials are replaced by those
-- in effect, in whatever order the texts come, and all references are resolved among these: in the
-- root, in partials of either origin, in sections and in the texts of lambdas, whose own definitions
-- count for nothing. Without supplied texts it is the plain render. If one of them is no template, used
-- or not, the render is an error of such a text, and nothing is asked of the host.
theorem renderWith_layered (t : Template) (host : Host) (depth : Nat) (data : Value)
    (journal : Journal) {supplied : List (String × String)}
    (distinct : (supplied.map Prod.fst).Nodup) :
    (Legible supplied →
      (∃ registry, Layered t.document.partials supplied registry) ∧
      ∀ registry, Layered t.document.partials supplied registry → ∀ order, order.Perm supplied →
        t.renderWith host depth order data journal =
          (t.withPartials registry).render host depth data journal ∧
        ∀ documents visits outcome, readAll order = .ok documents →
          (t.settingOf host documents).Course depth (.document t.document.root)
            (.start data journal) visits outcome →
          (t.settingOf host documents).Resolves registry depth visits) ∧
    t.renderWith host depth [] data journal = t.render host depth data journal ∧
    (¬ Legible supplied → ∀ order, order.Perm supplied → ∃ entry ∈ supplied, ∃ cause,
      Document.parse entry.2 = .error cause ∧
        t.renderWith host depth order data journal = (.error (.parse cause), journal)) := by
  refine ⟨fun legible => ⟨?_, fun registry layered order perm => ?_⟩, rfl, fun illegible order perm => ?_⟩
  · obtain ⟨documents, read⟩ := readAll_of_legible legible
    exact ⟨_, overlay_layered distinct read t.document.partials⟩
  · have distinct' : (order.map Prod.fst).Nodup := (perm.map Prod.fst).nodup_iff.mpr distinct
    have legible' : Legible order := fun entry member => legible entry (perm.mem_iff.mp member)
    have agree {documents} (read : readAll order = .ok documents) (name : String) :
        registry.get? name = (overlay t.document.partials documents).get? name :=
      (layered.perm perm).agree (overlay_layered distinct' read t.document.partials) legible' name
    refine ⟨?_, fun documents visits outcome read course => course.resolves (agree read)⟩
    obtain ⟨documents, read⟩ := readAll_of_legible legible'
    have walked := (t.settingOf host documents).walk_congr (agree read) depth t.document.root
      (.start data journal)
    rw [renderWith, read]
    exact congrArg resultOf walked.symm
  · cases read : readAll order with
    | ok documents =>
      have legible : Legible order := legible_of_readAll read
      exact absurd (fun entry member => legible entry (perm.mem_iff.mpr member)) illegible
    | error cause =>
      obtain ⟨entry, member, unread⟩ := readAll_error read
      refine ⟨entry, perm.mem_iff.mp member, cause, unread, ?_⟩
      rw [renderWith, read]

end Template

-- A template with two partials of its own, the first of which is supplied as well, and a lambda whose
-- text defines the second one anew.
namespace Layering

def source : String :=
  "\x7b\x7b<p\x7d\x7down\x7b\x7b/p\x7d\x7d\x7b\x7b<q\x7d\x7dkept\x7b\x7b/q\x7d\x7d\x7b\x7b>p\x7d\x7d \x7b\x7bl\x7d\x7d"

def answer : String :=
  "\x7b\x7b<q\x7d\x7dlost\x7b\x7b/q\x7d\x7d\x7b\x7b>p\x7d\x7d \x7b\x7b>q\x7d\x7d"

def template : Template :=
  ⟨⟨[.reference "p" "", .text " ", .interpolation "l" true],
    [("p", [.text "own"]), ("q", [.text "kept"])]⟩, .standard⟩

def supplied : List (String × String) :=
  [("r", "\x7b\x7b<q\x7d\x7dlost\x7b\x7b/q\x7d\x7d"), ("p", "new \x7b\x7b>q\x7d\x7d")]

def documents : List (String × Document) :=
  [("r", ⟨[], [("q", [.text "lost"])]⟩), ("p", ⟨[.text "new ", .reference "q" ""], []⟩)]

def registry : Entries (List Node) :=
  [("p", [.text "new ", .reference "q" ""]), ("q", [.text "kept"]), ("r", [])]

def host : Host := .ofScripts #[.constant (.text answer)] #[]

def data : Value := .map [("l", .lambda ⟨0, false⟩)]

def unclosed : List (String × String) := ("s", "\x7b\x7bx") :: supplied

end Layering

open Layering in
theorem Template.renderWith_layered_redefined :
    (supplied.map Prod.fst).Nodup ∧ Legible supplied ∧
    Layered template.document.partials supplied registry ∧
    supplied.reverse.Perm supplied ∧ readAll supplied.reverse = .ok documents.reverse ∧
    compile source = .ok template ∧
    template.renderWith host 4 supplied.reverse data [] =
      (.ok "new kept new kept kept", [.called ⟨0, false⟩ ""]) ∧
    (∃ visits outcome, (template.settingOf host documents.reverse).Course 4
        (.document template.document.root) (.start data []) visits outcome ∧
      (template.settingOf host documents.reverse).Resolves registry 4 visits) ∧
    (unclosed.map Prod.fst).Nodup ∧ ¬ Legible unclosed ∧
    ∃ entry ∈ unclosed, ∃ cause, Document.parse entry.2 = .error cause ∧
      template.renderWith host 4 unclosed data [] = (.error (.parse cause), []) := by
  have distinct : (supplied.map Prod.fst).Nodup := by decide
  have read : readAll supplied = .ok documents := by decide +kernel
  have back : readAll supplied.reverse = .ok documents.reverse := by decide +kernel
  have laid : overlay template.document.partials documents = registry := by decide +kernel
  have layered : Layered template.document.partials supplied registry :=
    laid ▸ overlay_layered distinct read template.document.partials
  have legible : Legible supplied := legible_of_readAll read
  have turned : supplied.reverse.Perm supplied := List.reverse_perm supplied
  obtain ⟨same, resolved⟩ := ((renderWith_layered template host 4 data [] distinct).1 legible).2
    registry layered _ turned
  obtain ⟨visits, course⟩ := (template.settingOf host documents.reverse).walk_course 4
    template.document.root (.start data [])
  have apart : (unclosed.map Prod.fst).Nodup := by decide
  have refused : Document.parse "\x7b\x7bx" = .error (.unclosedTag 0) := by decide +kernel
  have illegible : ¬ Legible unclosed := fun all => by
    obtain ⟨d, parsed⟩ := all _ List.mem_cons_self
    rw [refused] at parsed
    cases parsed
  refine ⟨distinct, legible, layered, turned, back, by decide +kernel, ?_,
    ⟨visits, _, course, resolved _ _ _ back course⟩, apart, illegible,
    (renderWith_layered template host 4 data [] apart).2.2 illegible _ (.refl _)⟩
  rw [same]
  decide +kernel

end Mustache
