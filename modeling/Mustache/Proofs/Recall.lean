import Mustache.Proofs.Effect

namespace Mustache

namespace Setting

theorem keeps_sound (s : Setting) :
    s.Keeps (fun _ => True) (fun _ => True) (fun _ _ => True) (fun w => w.cache.Sound) where
  inner _ _ _ := trivial
  partials _ _ _ := trivial
  looks sound looked := by
    rw [(lookUp_journal looked).2]
    exact sound
  finds _ _ := trivial
  sends _ _ := trivial
  each _ _ _ _ := trivial
  pushes _ sound := sound
  pops sound := sound
  refers _ sound := sound
  returns _ sound := sound
  texts _ sound := sound
  shows _ _ sound := sound
  reads _ _ _ _ _ := trivial
  enters _ sound read := (compile_sound sound read).1
  leaves _ sound := sound
  expands _ sound := sound
  replaces _ sound := sound

theorem Course.sound (course : Course s depth task w visits o) (sound : w.cache.Sound) :
    (∀ v ∈ visits, v.walk.cache.Sound) ∧ o.walk.cache.Sound := by
  have admits : task.Admits (fun _ => True) (fun _ => True) (fun _ _ => True) := by
    cases task <;> simp [Task.Admits]
  obtain ⟨visited, last⟩ := course.keeps s.keeps_sound admits sound
  exact ⟨fun v member => (visited v member).2, last⟩

theorem compile_anew (s : Setting) (text : String) (pair : Delimiters) (cache : Cache) :
    ((s.reusing false).compile text pair cache).1 = Document.parseWith pair text := by
  simp only [compile, reusing, Bool.false_eq_true, if_false]
  cases Document.parseWith pair text <;> rfl

end Setting

theorem Walk.start_sound (data : Value) (journal : Journal) : (start data journal).cache.Sound :=
  fun _ member => by cases member

namespace Template

def renderAnew (t : Template) (host : Host) (depth : Nat) (supplied : List (String × String))
    (data : Value) (journal : Journal) : Except TemplateError String × Journal :=
  match readAll supplied with
  | .error cause => (.error (.parse cause), journal)
  | .ok documents =>
    resultOf (((t.settingOf host documents).reusing false).walk depth t.document.root
      (.start data journal))

theorem resultOf_on (effect : Effect) (w : Walk) (cache other : Cache) :
    resultOf (effect.on w cache) = resultOf (effect.on w other) := by
  obtain ⟨text, asked, _ | fault⟩ := effect <;> rfl

-- A render that takes texts from its cache comes to the same text or error as one that reads them
-- all anew, and asks the same of the host in the same order. At every node that a walk comes to, in
-- the texts from lambdas as well, every document in the cache is that of its text, so that what is
-- taken from the cache is what would be read.
theorem renderWith_anew (t : Template) (host : Host) (depth : Nat)
    (supplied : List (String × String)) (data : Value) (journal : Journal) :
    t.renderWith host depth supplied data journal = t.renderAnew host depth supplied data journal ∧
    (∀ documents visits outcome, readAll supplied = .ok documents →
      (t.settingOf host documents).Course depth (.document t.document.root) (.start data journal)
        visits outcome →
      outcome.walk.cache.Sound ∧ ∀ v ∈ visits, v.walk.cache.Sound ∧ ∀ text pair,
        ((t.settingOf host documents).compile text pair v.walk.cache).1 =
          Document.parseWith pair text ∧
        (((t.settingOf host documents).reusing false).compile text pair v.walk.cache).1 =
          Document.parseWith pair text) ∧
    ∀ (s : Setting) depth task w visits o, s.Course depth task w visits o → w.cache.Sound →
      (∀ v ∈ visits, v.walk.cache.Sound) ∧ o.walk.cache.Sound := by
  refine ⟨?_, fun documents visits outcome read course => ?_,
    fun s depth task w visits o course sound => course.sound sound⟩
  · unfold renderWith renderAnew
    cases readAll supplied with
    | error cause => rfl
    | ok documents =>
      let s := t.settingOf host documents
      have sound := Walk.start_sound data journal
      obtain ⟨cache, -, reused⟩ := s.walk_eq_on depth t.document.root sound
      obtain ⟨other, -, anew⟩ := s.walk_effect depth t.document.root sound (.refl _) false
      have walked : t.walkWith host depth (overlay t.document.partials documents) data journal = _ :=
        reused
      dsimp only
      rw [walked, anew]
      exact resultOf_on _ _ cache other
  · obtain ⟨visited, last⟩ := course.sound (Walk.start_sound data journal)
    refine ⟨last, fun v member => ⟨visited v member, fun text pair => ⟨?_, ?_⟩⟩⟩
    · exact (Setting.compile_sound (visited v member) rfl).2
    · exact Setting.compile_anew _ text pair _

end Template

-- A lambda that answers with one text and with another by turns, the first of which calls a lambda
-- that answers with the second. The first text comes under two pairs.
namespace Turns

def source : String :=
  "\x7b\x7bl\x7d\x7d\x7b\x7b#l\x7d\x7da\x7b\x7b/l\x7d\x7d\x7b\x7b=| |=\x7d\x7d|#l|b|/l|"

def nested : String := "\x7b\x7bk\x7d\x7d"

def inner : String := "\x7b\x7bx\x7d\x7d"

def template : Template :=
  ⟨⟨[.interpolation "l" true, .block false "l" [.text "a"] "a" .standard,
    .block false "l" [.text "b"] "b" ⟨"|", "|"⟩], []⟩, .standard⟩

def host : Host := .ofScripts #[.cycle [.text nested, .text inner], .constant (.text inner)] #[]

def turning : Lambda := ⟨0, false⟩

def steady : Lambda := ⟨1, false⟩

def data : Value :=
  .map [("k", .lambda steady), ("l", .lambda turning), ("x", .number (.int 1))]

def calls : Journal := [.called turning "b", .called turning "a", .called steady "", .called turning ""]

end Turns

open Turns in
theorem Template.renderWith_anew_turns :
    compile source = .ok template ∧
    template.renderWith host 4 [] data [] = (.ok ("11" ++ nested), calls) ∧
    template.renderAnew host 4 [] data [] = (.ok ("11" ++ nested), calls) ∧
    (template.walkWith host 4 [] data []).walk.cache.length = 3 ∧
    ∃ visits outcome, (template.settingOf host []).Course 4 (.document template.document.root)
        (.start data []) visits outcome ∧ (Walk.start data []).cache.Sound ∧
      outcome.walk.cache.Sound ∧ ∀ v ∈ visits, v.walk.cache.Sound := by
  obtain ⟨same, kept, -⟩ := renderWith_anew template host 4 [] data []
  have rendered : template.renderWith host 4 [] data [] = (.ok ("11" ++ nested), calls) := by
    decide +kernel
  obtain ⟨visits, course⟩ := (template.settingOf host []).walk_course 4 template.document.root
    (.start data [])
  obtain ⟨last, visited⟩ := kept [] visits _ rfl course
  refine ⟨by decide +kernel, rendered, same ▸ rendered, by decide +kernel, visits, _, course,
    Walk.start_sound data [], last, fun v member => (visited v member).1⟩

end Mustache
