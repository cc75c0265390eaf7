import Mustache.Proofs.Dotted
import Mustache.Proofs.Effect

namespace Mustache

inductive Resolved.Blank : Option Resolved → Prop where
  | missing : Blank none
  | null : Blank (some (.value .null))
  | no : Blank (some (.value (.bool false)))
  | empty : Blank (some (.value (.list [])))

def Value.contexts (frames : Frames) : Value → List Frames
  | .null | .bool false => []
  | .bool true => [frames]
  | .list items => items.map frames.push
  | value => [frames.push value]

namespace Resolved

theorem blank_iff_skip {value : Value} : Blank (some (.value value)) ↔ Passes.of value = .skip := by
  constructor
  · intro blank
    cases blank <;> rfl
  · intro skip
    unfold Passes.of at skip
    split at skip
    · exact .null
    · exact .no
    · cases skip
    · exact .empty
    all_goals cases skip

theorem isNothing_iff_blank : IsNothing found ↔ Blank found := by
  rcases found with _ | ⟨value | ⟨text, scope⟩⟩
  · exact iff_of_true Setting.isNothing_none .missing
  · exact Setting.isNothing_value.trans blank_iff_skip.symm
  · exact iff_of_false Setting.not_isNothing_template nofun

end Resolved

namespace Value

theorem contexts_eq (frames : Frames) (value : Value) :
    value.contexts frames = match Passes.of value with
      | .skip => []
      | .once => [frames]
      | .each items => items.map frames.push := by
  cases value with
  | bool yes => cases yes <;> rfl
  | list items => cases items <;> rfl
  | _ => rfl

theorem contexts_ne_nil (something : ¬ Resolved.Blank (some (.value value))) (frames : Frames) :
    value.contexts frames ≠ [] := by
  cases value with
  | null => exact absurd .null something
  | bool yes =>
    cases yes with
    | false => exact absurd .no something
    | true => exact List.cons_ne_nil _ _
  | list items =>
    cases items with
    | nil => exact absurd .empty something
    | cons item items => exact List.cons_ne_nil _ _
  | _ => exact List.cons_ne_nil _ _

end Value

namespace Setting
variable {s : Setting} {depth : Nat}

def walkIn (body : Walk → Outcome) : List Frames → Walk → Outcome
  | [], w => w.done
  | context :: rest, w =>
    ((body { w with frames := context }).inFrames w.frames).andThen (walkIn body rest)

-- What takes the place of the children for a text from a lambda: the document of the text, walked
-- without indent. Where it ends with a fault nothing is written.
def replacement (s : Setting) (depth : Nat) (text : String) (pair : Delimiters) (frames : Frames)
    (past : Journal) : Effect :=
  match Document.parseWith pair text with
  | .error cause => ⟨"", [], some (.parse cause)⟩
  | .ok d =>
    let effect := s.effect depth d.root frames "" past
    { effect with text := if effect.fault.isNone then effect.text else "" }

-- A block that a walk comes to and leaves behind without any of the nodes inside it.
def PassesOver (s : Setting) (depth : Nat) (node : Node) (w : Walk) (o : Outcome) : Prop :=
  s.visit (s.walk depth) node w = o ∧
    ∀ visits o', s.Course depth (.node node) w visits o' → visits = [⟨node, w⟩]

theorem visit_of_course (course : s.Course depth (.node node) w visits o) :
    s.visit (s.walk depth) node w = o := by
  obtain ⟨_, walked⟩ := s.visit_course (s.walk_course depth) node w
  exact (walked.unique course).2

theorem Course.passesOver (course : s.Course depth (.node node) w [⟨node, w⟩] o) :
    s.PassesOver depth node w o :=
  ⟨visit_of_course course, fun _ _ other => (other.unique course).1⟩

theorem visitAll_frames (s : Setting) (depth : Nat) (nodes : List Node) (w : Walk) :
    (s.visitAll (s.walk depth) nodes w).walk.frames = w.frames := by
  obtain ⟨_, course⟩ := visitAll_course (s.walk_course depth) nodes w
  exact course.place.1

theorem passEach_eq (s : Setting) (depth : Nat) (children : List Node) (items : List Value) (w : Walk) :
    passEach (s.visitAll (s.walk depth) children) items w =
      walkIn (s.visitAll (s.walk depth) children) (items.map w.frames.push) w := by
  induction items generalizing w with
  | nil => rfl
  | cons item items ih =>
    have frames := s.visitAll_frames depth children { w with frames := w.frames.push item }
    rw [passEach, List.map_cons, walkIn]
    rcases reached : s.visitAll (s.walk depth) children { w with frames := w.frames.push item } with
      ⟨middle, fault⟩
    rw [reached] at frames
    dsimp only
    rw [show middle.frames.pop = w.frames from congrArg Frames.pop frames]
    cases fault with
    | some fault => rfl
    | none => exact ih { middle with frames := w.frames }

theorem section_value (looked : s.lookUp w key raw = (some (.value value), middle))
    (children : List Node) (pair : Delimiters) :
    s.visit (s.walk depth) (.block false key children raw pair) w =
      walkIn (s.visitAll (s.walk depth) children) (value.contexts middle.frames) middle := by
  rw [visit, if_neg Bool.false_ne_true, showSection, looked, Value.contexts_eq]
  cases passes : Passes.of value with
  | skip => simp only [passes, walkIn]
  | once =>
    have frames := s.visitAll_frames depth children middle
    simp only [passes, walkIn]
    rcases reached : s.visitAll (s.walk depth) children middle with ⟨last, _ | fault⟩ <;>
      rw [reached] at frames <;> rw [← frames] <;> rfl
  | each items =>
    simp only [passes]
    exact s.passEach_eq depth children items middle

theorem section_template (looked : s.lookUp w key raw = (some (.template text scope), middle))
    (sound : middle.cache.Sound) (children : List Node) (pair : Delimiters) : ∃ cache, cache.Sound ∧
      s.visit (s.walk depth) (.block false key children raw pair) w =
        (s.replacement depth text pair (middle.frames.extend scope) middle.journal).on middle cache := by
  rw [visit, if_neg Bool.false_ne_true, showSection, looked]
  dsimp only [expand, replacement]
  rcases compiled : s.compile text pair middle.cache with ⟨result, cache⟩
  obtain ⟨kept, rfl⟩ := compile_sound sound compiled
  cases Document.parseWith pair text with
  | error cause => exact ⟨cache, kept, by rw [Effect.on, Walk.add_nothing]⟩
  | ok d =>
    obtain ⟨last, kept', walked⟩ :=
      s.walk_eq_on depth d.root (w := ⟨middle.frames.extend scope, "", "", cache, middle.journal⟩) kept
    dsimp only
    rw [walked]
    rcases s.effect depth d.root (middle.frames.extend scope) "" middle.journal with
      ⟨shown, asked, _ | fault⟩
    · exact ⟨last, kept', by simp [Effect.on, Walk.add, Walk.writePlain, Walk.done]⟩
    · exact ⟨last, kept', by simp [Effect.on, Walk.add]⟩

-- A section and an inverted section are opposites. They are come to in states in which the path leads
-- to the same, by whatever calls and values, and the lookup leaves all but the journal as it is. If it
-- leads to nothing, null, false or a list without items, the section does nothing with its children,
-- and the inverted section walks them where it stands. Otherwise it is the inverted section that does
-- nothing and that reads no text either. The section then walks the children at least once, or walks
-- the text from a lambda instead of them, be it empty.
theorem visit_opposite (s : Setting) (depth : Nat) (children : List Node) (pair : Delimiters)
    (looked : s.lookUp w key raw = (found, middle))
    (looked' : s.lookUp w' key raw = (found, middle')) :
    (middle = { w with journal := middle.journal } ∧
      middle' = { w' with journal := middle'.journal }) ∧
    (Resolved.Blank found →
      s.PassesOver depth (.block false key children raw pair) w middle.done ∧
      s.visit (s.walk depth) (.block true key children raw pair) w' =
        s.visitAll (s.walk depth) children middle') ∧
    (¬ Resolved.Blank found →
      s.PassesOver depth (.block true key children raw pair) w' middle'.done ∧
      (∀ value, found = some (.value value) → value.contexts w.frames ≠ [] ∧
        s.visit (s.walk depth) (.block false key children raw pair) w =
          walkIn (s.visitAll (s.walk depth) children) (value.contexts w.frames) middle) ∧
      ∀ text scope, found = some (.template text scope) → w.cache.Sound → ∃ cache, cache.Sound ∧
        s.visit (s.walk depth) (.block false key children raw pair) w =
          (s.replacement depth text pair (w.frames.extend scope) middle.journal).on middle cache) := by
  have same := (lookUp_journal looked).2
  have frames : middle.frames = w.frames := by rw [same]
  refine ⟨⟨same, (lookUp_journal looked').2⟩, fun blank => ?_, fun something => ?_⟩
  · have nothing := Resolved.isNothing_iff_blank.mpr blank
    obtain ⟨visits, inner⟩ := visitAll_course (s.walk_course depth) children middle'
    exact ⟨Course.passesOver (.skipped looked nothing), visit_of_course (.inverse looked' nothing inner)⟩
  · have full := mt Resolved.isNothing_iff_blank.mp something
    refine ⟨Course.passesOver (.notInverse looked' full), ?_, ?_⟩
    · rintro value rfl
      rw [← frames]
      exact ⟨Value.contexts_ne_nil something _, section_value looked children pair⟩
    · rintro text scope rfl sound
      rw [← frames]
      exact section_template looked (by rwa [same]) children pair

end Setting

namespace Contrast

def lambda : Lambda := ⟨0, false⟩

def text : String := "<\x7b\x7bname\x7d\x7d>"

def items : List Value := [.text "a", .text "b"]

def setting : Setting where
  host := .ofScripts #[.constant (.text text)] #[]
  partials := []
  options := .standard
  reuses := true

def state : Walk :=
  .start (.map [("both", .list items), ("bracket", .lambda lambda), ("name", .text "n"),
    ("none", .list [])]) []

def after : Walk := { state with journal := [.called lambda "x"] }

def children : List Node := [.interpolation "." true, .text ";"]

end Contrast

open Contrast in
theorem Setting.visit_opposite_contrast :
    setting.lookUp state "none" "x" = (some (.value (.list [])), state) ∧
    setting.lookUp state "both" "x" = (some (.value (.list items)), state) ∧
    setting.lookUp state "bracket" "x" = (some (.template text []), after) ∧
    setting.visit (setting.walk 2) (.block false "none" children "x" .standard) state = state.done ∧
    setting.visit (setting.walk 2) (.block true "none" [.text "x"] "x" .standard) state =
      (state.writeText "x").done ∧
    setting.PassesOver 2 (.block true "both" children "x" .standard) state state.done ∧
    (setting.visit (setting.walk 2) (.block false "both" children "x" .standard) state).walk.out =
      "a;b;" ∧
    setting.PassesOver 2 (.block true "bracket" children "x" .standard) state after.done ∧
    ∃ cache, setting.visit (setting.walk 2) (.block false "bracket" children "x" .standard) state =
      (after.add "<n>" [] cache).done := by
  have none : setting.lookUp state "none" "x" = (some (.value (.list [])), state) := by rfl
  have both : setting.lookUp state "both" "x" = (some (.value (.list items)), state) := by rfl
  have bracket : setting.lookUp state "bracket" "x" = (some (.template text []), after) := by rfl
  obtain ⟨-, blank, -⟩ := setting.visit_opposite 2 children .standard none none
  obtain ⟨-, blank', -⟩ := setting.visit_opposite 2 [.text "x"] .standard none none
  obtain ⟨-, -, full⟩ := setting.visit_opposite 2 children .standard both both
  obtain ⟨-, -, other⟩ := setting.visit_opposite 2 children .standard bracket bracket
  obtain ⟨idle, walked, -⟩ := full nofun
  obtain ⟨inert, -, instead⟩ := other nofun
  obtain ⟨-, shown⟩ := walked (.list items) rfl
  obtain ⟨cache, -, written⟩ := instead text [] rfl fun _ member => by cases member
  have inner : setting.replacement 2 text .standard (state.frames.extend []) after.journal =
      ⟨"<n>", [], Option.none⟩ := by decide +kernel
  refine ⟨none, both, bracket, (blank .empty).1.1, (blank' .empty).2, idle, ?_, inert, cache, ?_⟩
  · rw [shown]
    rfl
  · rw [written, inner]
    rfl

end Mustache
