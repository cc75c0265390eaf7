import Mustache.Host.Script
import Mustache.Proofs.Locality

namespace Mustache

-- What is done in a walk: the text that it writes, what it asks of the host, latest first, and the
-- fault that ends it, if any.
structure Effect where
  text : String
  asked : Journal
  fault : Option Fault
deriving DecidableEq, Repr

namespace Effect

def andThen (first later : Effect) : Effect :=
  match first.fault with
  | some _ => first
  | none => ⟨first.text ++ later.text, later.asked ++ first.asked, later.fault⟩

-- The outcome in a state: the text stands behind what was written before, and the values in scope and
-- the indent are those of the state.
def on (effect : Effect) (w : Walk) (cache : Cache) : Outcome :=
  ⟨w.add effect.text effect.asked cache, effect.fault⟩

theorem eq_of_on {effect other : Effect} (same : effect.on w cache = other.on w cache') :
    effect = other := by
  simp only [on, Walk.add, Outcome.mk.injEq, Walk.mk.injEq, true_and] at same
  obtain ⟨⟨text, -, asked⟩, fault⟩ := same
  have texts : effect.text = other.text := (String.append_right_inj w.out).mp text
  have journals : effect.asked = other.asked := List.append_cancel_right asked
  cases effect
  cases other
  simp_all

theorem andThen_on (text : String) (asked : Journal) (later : Effect) (w : Walk) (cache last : Cache) :
    (andThen ⟨text, asked, none⟩ later).on w last = later.on (w.add text asked cache) last := by
  rw [on, on, Walk.add_add]
  rfl

end Effect

def Outcome.andThen (o : Outcome) (later : Walk → Outcome) : Outcome :=
  match o with
  | ⟨last, some fault⟩ => ⟨last, some fault⟩
  | ⟨middle, none⟩ => later middle

def Walk.cutBack (w : Walk) (bytes : Nat) : Walk :=
  { w with indent := match Text.cut? bytes w.indent.toList with
      | some (kept, _) => String.ofList kept
      | none => w.indent }

def Frames.Over (frames base : Frames) : Prop :=
  ∃ pushed, frames = ⟨pushed ++ base.inner, base.root⟩

namespace Frames.Over
variable {frames base : Frames}

theorem refl (frames : Frames) : frames.Over frames := ⟨[], rfl⟩

theorem trans (above : frames.Over middle) (below : middle.Over base) : frames.Over base := by
  obtain ⟨pushed, rfl⟩ := above
  obtain ⟨more, rfl⟩ := below
  exact ⟨pushed ++ more, by rw [List.append_assoc]⟩

theorem push (frames : Frames) (item : Value) : (frames.push item).Over frames := ⟨[item], rfl⟩

theorem extend (frames : Frames) (scope : List Value) : (frames.extend scope).Over frames :=
  ⟨scope.reverse, rfl⟩

end Frames.Over

namespace Setting
variable {s : Setting} {depth : Nat}

def effect (s : Setting) (depth : Nat) (nodes : List Node) (frames : Frames) (indent : String)
    (past : Journal) : Effect :=
  let o := s.walk depth nodes ⟨frames, indent, "", [], past⟩
  ⟨o.walk.out, o.walk.journal.take (o.walk.journal.length - past.length), o.fault⟩

theorem walk_effect (s : Setting) (depth : Nat) (nodes : List Node) {w : Walk}
    (sound : w.cache.Sound) {past : Journal} (same : past.SameCalls w.journal) (reuses : Bool) :
    ∃ cache, cache.Sound ∧ (s.reusing reuses).walk depth nodes w =
      (s.effect depth nodes w.frames w.indent past).on w cache := by
  let blank : Walk := ⟨w.frames, w.indent, "", [], past⟩
  have empty : blank.cache.Sound := fun _ member => by cases member
  obtain ⟨visits, course⟩ := s.walk_course depth nodes blank
  obtain ⟨text, asked, does⟩ := course.does empty
  obtain ⟨last, -, ended⟩ := does.outcome course empty
  have effect : s.effect depth nodes w.frames w.indent past =
      ⟨text, asked, (s.walk depth nodes blank).fault⟩ := by
    unfold Setting.effect
    change Effect.mk (s.walk depth nodes blank).walk.out _ _ = _
    rw [ended]
    simp [Walk.add, Task.within, blank]
  obtain ⟨visits', cache, kept, course'⟩ := does w ⟨rfl, rfl, same, sound⟩ reuses
  obtain ⟨visits'', walked⟩ := (s.reusing reuses).walk_course depth nodes w
  refine ⟨cache, kept, ?_⟩
  rw [← (course'.unique walked).2, effect]
  rfl

theorem walk_eq_on (s : Setting) (depth : Nat) (nodes : List Node) {w : Walk}
    (sound : w.cache.Sound) : ∃ cache, cache.Sound ∧
      s.walk depth nodes w = (s.effect depth nodes w.frames w.indent w.journal).on w cache :=
  s.walk_effect depth nodes sound (.refl _) s.reuses

theorem visitAll_append (s : Setting) (enter : List Node → Walk → Outcome) (xs ys : List Node)
    (w : Walk) : s.visitAll enter (xs ++ ys) w =
      (s.visitAll enter xs w).andThen (s.visitAll enter ys) := by
  induction xs generalizing w with
  | nil => rfl
  | cons x xs ih =>
    rw [List.cons_append, visitAll, visitAll]
    rcases s.visit enter x w with ⟨middle, _ | fault⟩
    · exact ih middle
    · rfl

theorem walk_append (s : Setting) (depth : Nat) (xs ys : List Node) (w : Walk) :
    s.walk depth (xs ++ ys) w = (s.walk depth xs w).andThen (s.walk depth ys) := by
  cases depth with
  | zero => rfl
  | succ depth => exact s.visitAll_append (s.walk depth) xs ys w

theorem effect_append (s : Setting) (depth : Nat) (xs ys : List Node) (frames : Frames)
    (indent : String) (past : Journal) : s.effect depth (xs ++ ys) frames indent past =
      (s.effect depth xs frames indent past).andThen
        (s.effect depth ys frames indent ((s.effect depth xs frames indent past).asked ++ past)) := by
  let blank : Walk := ⟨frames, indent, "", [], past⟩
  have empty : blank.cache.Sound := fun _ member => by cases member
  obtain ⟨both, -, whole⟩ := s.walk_eq_on depth (xs ++ ys) empty
  obtain ⟨cache, kept, first⟩ := s.walk_eq_on depth xs empty
  rw [walk_append, first] at whole
  dsimp only [blank] at whole kept
  generalize s.effect depth (xs ++ ys) frames indent past = all at whole ⊢
  generalize s.effect depth xs frames indent past = effect at whole ⊢
  obtain ⟨text, asked, fault⟩ := effect
  cases fault with
  | some fault => exact (Effect.eq_of_on whole).symm
  | none =>
    have reached : (blank.add text asked cache).cache.Sound := kept
    obtain ⟨last, -, later⟩ := s.walk_eq_on depth ys reached
    have joined := whole.symm.trans later
    rw [← Effect.andThen_on] at joined
    exact Effect.eq_of_on joined

theorem Course.over (course : s.Course depth task w visits o) (sound : w.cache.Sound) :
    ∀ v ∈ visits, v.walk.frames.Over w.frames := by
  have both {P : Visit → Prop} {some more : List Visit} (one : ∀ v ∈ some, P v)
      (other : ∀ v ∈ more, P v) : ∀ v ∈ some ++ more, P v :=
    fun v member => (List.mem_append.mp member).elim (one v) (other v)
  induction course with
  | nil => simp
  | cons first later ih ih' =>
    obtain ⟨text, asked, does⟩ := first.does sound
    obtain ⟨cache, kept, same⟩ := does.outcome first sound
    cases same
    exact both (ih sound) (ih' kept)
  | stopped first ih => exact ih sound
  | noPass => simp
  | pass first later ih ih' =>
    obtain ⟨text, asked, does⟩ := first.does sound
    obtain ⟨cache, kept, same⟩ := does.outcome first sound
    cases same
    exact both (fun v member => (ih sound v member).trans (.push _ _)) (ih' kept)
  | passStopped first ih => exact fun v member => (ih sound v member).trans (.push _ _)
  | tooDeep => simp
  | document inner ih => exact ih sound
  | refused read => simp
  | expanded read inner ih =>
    exact fun v member => (ih (compile_sound sound read).1 v member).trans (.extend _ _)
  | text | absent missing => exact List.forall_mem_singleton.mpr (.refl _)
  | silent looked | value looked | skipped looked | notInverse looked =>
    exact List.forall_mem_singleton.mpr (.refl _)
  | interpolated looked inner ih | interpolationFailed looked inner ih
  | once looked passes inner ih | each looked passes inner ih
  | replaced looked inner ih | sectionFailed looked inner ih
  | inverse looked nothing inner ih =>
    obtain ⟨asked, rfl, -⟩ := lookUp_does looked
    exact List.forall_mem_cons.mpr ⟨.refl _, ih sound⟩
  | referred found inner ih => exact List.forall_mem_cons.mpr ⟨.refl _, ih sound⟩

theorem showPartial_cutBack (s : Setting) (depth : Nat) {w : Walk} (sound : w.cache.Sound)
    (found : s.partials.get? key = some nodes) (more : String) :
    s.showPartial (s.walk depth) key more w =
      { s.walk depth nodes { w with indent := w.indent ++ more } with
        walk := (s.walk depth nodes { w with indent := w.indent ++ more }).walk.cutBack
          (Text.size w.indent.toList) } := by
  have inside : { w with indent := w.indent ++ more }.cache.Sound := sound
  obtain ⟨cache, -, same⟩ := s.walk_eq_on depth nodes inside
  have cut : Text.cut? (Text.size w.indent.toList) (w.indent.toList ++ more.toList) =
      some (w.indent.toList, more.toList) := Text.cut_eq_some_iff.mpr ⟨rfl, rfl⟩
  simp only [showPartial, found, same, Effect.on, Walk.add, Walk.cutBack, String.toList_append, cut,
    String.ofList_toList]

-- Walking is local. What a walk does to a state is to write some text behind what was written before,
-- to ask something of the host, and maybe to end with a fault; the values in scope and the indent are
-- left as they were, whether it ends so or not, and no frame that was there goes away meanwhile. All
-- this hangs on the nodes, the values in scope, the indent, what the render keeps to and the calls so
-- far, and not on what was written or read before. Nodes one behind the other do first what the ones
-- do and then, unless these end with a fault, what the others do with the calls so far. The cache is
-- empty where a render begins, and every step keeps it sound.
theorem walk_local (s : Setting) (depth : Nat) {w : Walk} (sound : w.cache.Sound) :
    (∀ nodes past reuses, past.SameCalls w.journal → ∃ cache, cache.Sound ∧
      (s.reusing reuses).walk depth nodes w =
        (s.effect depth nodes w.frames w.indent past).on w cache) ∧
    (∀ xs ys, s.walk depth (xs ++ ys) w = (s.walk depth xs w).andThen (s.walk depth ys)) ∧
    (∀ xs ys, s.effect depth (xs ++ ys) w.frames w.indent w.journal =
      (s.effect depth xs w.frames w.indent w.journal).andThen
        (s.effect depth ys w.frames w.indent
          ((s.effect depth xs w.frames w.indent w.journal).asked ++ w.journal))) ∧
    (∀ nodes visits o, s.Course depth (.document nodes) w visits o →
      ∀ v ∈ visits, v.walk.frames.Over w.frames) ∧
    ∀ key nodes more, s.partials.get? key = some nodes →
      s.showPartial (s.walk depth) key more w =
        { s.walk depth nodes { w with indent := w.indent ++ more } with
          walk := (s.walk depth nodes { w with indent := w.indent ++ more }).walk.cutBack
            (Text.size w.indent.toList) } :=
  ⟨fun nodes _ reuses same => s.walk_effect depth nodes sound same reuses,
    fun xs ys => s.walk_append depth xs ys w,
    fun xs ys => s.effect_append depth xs ys w.frames w.indent w.journal,
    fun _ _ _ course => course.over sound,
    fun _ _ more found => s.showPartial_cutBack depth sound found more⟩

end Setting

namespace Counting

def counts : List Node :=
  [.block false "l" [.interpolation "." true, .interpolation "n" true] "" .standard]

def setting : Setting where
  host := .ofScripts #[.callCount, .constant (.text "\x7b\x7bx")] #[]
  partials := [("p", counts)]
  options := .standard
  reuses := true

def count : Lambda := ⟨0, false⟩

def broken : Lambda := ⟨1, false⟩

def data : Value :=
  .map [("bad", .lambda broken), ("l", .list [.text "a", .text "b"]), ("n", .lambda count)]

def state : Walk := ⟨.ofRoot data, "-", "old", [], [.consulted 7 "k"]⟩

def shown : List Node := [.reference "p" " "]

def rest : List Node := [.interpolation "bad" true, .interpolation "n" true]

def calls : Journal := [.called broken "", .called count "", .called count ""]

theorem sound : state.cache.Sound := fun _ member => by cases member

theorem sameCalls : Journal.SameCalls [] state.journal := fun _ => rfl

end Counting

open Counting in
theorem Setting.walk_local_counting :
    state.cache.Sound ∧ Journal.SameCalls [] state.journal ∧
    (∃ cache, cache.Sound ∧ (setting.reusing false).walk 3 (shown ++ rest) state =
      (Effect.mk "- a- 1- b- 2" calls (some (.parse (.unclosedTag 0)))).on state cache) ∧
    (∃ visits o, setting.Course 3 (.document (shown ++ rest)) state visits o ∧
      ∀ v ∈ visits, v.walk.frames.Over state.frames) ∧
    setting.partials.get? "p" = some counts ∧
    (setting.showPartial (setting.walk 3) "p" " " state).walk.indent = "-" := by
  obtain ⟨does, -, -, stays, cuts⟩ := setting.walk_local 3 sound
  have effect : setting.effect 3 (shown ++ rest) state.frames state.indent [] =
      ⟨"- a- 1- b- 2", calls, some (.parse (.unclosedTag 0))⟩ := by decide +kernel
  have found : setting.partials.get? "p" = some counts := by decide +kernel
  obtain ⟨visits, course⟩ := setting.walk_course 3 (shown ++ rest) state
  refine ⟨sound, sameCalls, effect ▸ does (shown ++ rest) [] false sameCalls,
    ⟨visits, _, course, stays _ _ _ course⟩, found, ?_⟩
  rw [cuts "p" counts " " found]
  decide +kernel

end Mustache
