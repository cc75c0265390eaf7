import Mustache.Proofs.Asking
import Mustache.Proofs.Failure

namespace Mustache

namespace Walk

def add (w : Walk) (text : String) (asked : Journal) (cache : Cache) : Walk :=
  { w with out := w.out ++ text, cache := cache, journal := asked ++ w.journal }

theorem add_nothing (w : Walk) (cache : Cache) : w.add "" [] cache = { w with cache := cache } := by
  simp [add]

theorem add_add (w : Walk) (text more : String) (asked further : Journal) (cache later : Cache) :
    (w.add text asked cache).add more further later = w.add (text ++ more) (further ++ asked) later := by
  simp [add, String.append_assoc]

theorem outside_add (w : Walk) (scope : List Value) (text : String) (asked : Journal)
    (first last : Cache) :
    w.outside ((w.inside scope first).add text asked last) = w.add "" asked last := by
  simp [outside, inside, add]

-- A state at the same place, with the same calls before it, whatever was written and read on the way
-- there.
structure Beside (w other : Walk) : Prop where
  frames : other.frames = w.frames
  indent : other.indent = w.indent
  calls : w.journal.SameCalls other.journal
  sound : other.cache.Sound

namespace Beside
variable {w other : Walk}

theorem refl (sound : w.cache.Sound) : w.Beside w := ⟨rfl, rfl, .refl _, sound⟩

theorem add (beside : w.Beside other) (text : String) (asked : Journal) (cache : Cache)
    (sound : last.Sound) : (w.add text asked cache).Beside (other.add text asked last) :=
  ⟨beside.frames, beside.indent, beside.calls.append asked, sound⟩

theorem push (beside : w.Beside other) (item : Value) :
    { w with frames := w.frames.push item }.Beside { other with frames := other.frames.push item } :=
  ⟨congrArg (·.push item) beside.frames, beside.indent, beside.calls, beside.sound⟩

theorem refer (beside : w.Beside other) (more : String) :
    { w with indent := w.indent ++ more }.Beside { other with indent := other.indent ++ more } :=
  ⟨beside.frames, congrArg (· ++ more) beside.indent, beside.calls, beside.sound⟩

theorem inside (beside : w.Beside other) (scope : List Value) (cache : Cache) (sound : last.Sound) :
    (w.inside scope cache).Beside (other.inside scope last) :=
  ⟨congrArg (·.extend scope) beside.frames, rfl, beside.calls, sound⟩

end Beside
end Walk

-- Where a task is walked. A text from a lambda is walked apart.
def Task.within : Task → Walk → Walk
  | .expansion _ _ scope, w => w.inside scope w.cache
  | .node _, w | .nodes _, w | .passes _ _, w | .document _, w => w

namespace Setting
variable {s : Setting} {depth : Nat}

def reusing (s : Setting) (reuses : Bool) : Setting := { s with reuses := reuses }

-- What a task does where it is begun with the same calls behind it: it writes the same text behind
-- what was written before, asks the same and comes to the same end, whether texts are reused or not.
-- The values in scope and the indent are left as they were.
def Does (s : Setting) (depth : Nat) (task : Task) (w : Walk) (text : String) (asked : Journal)
    (fault : Option Fault) : Prop :=
  ∀ other, w.Beside other → ∀ reuses, ∃ visits cache, cache.Sound ∧
    (s.reusing reuses).Course depth task other visits
      ⟨(task.within other).add text asked cache, fault⟩

theorem Does.outcome (does : s.Does depth task w text asked fault)
    (course : s.Course depth task w visits o) (sound : w.cache.Sound) :
    ∃ cache, cache.Sound ∧ o = ⟨(task.within w).add text asked cache, fault⟩ := by
  obtain ⟨visits', cache, kept, course'⟩ := does w (.refl sound) s.reuses
  exact ⟨cache, kept, (course.unique course').2⟩

theorem lookUp_does (looked : s.lookUp w key raw = (found, middle)) : ∃ asked,
    middle = w.add "" asked w.cache ∧ ∀ other, w.Beside other → ∀ reuses,
      (s.reusing reuses).lookUp other key raw = (found, other.add "" asked other.cache) := by
  obtain ⟨resolved, same⟩ := lookUp_journal looked
  obtain ⟨answer, asked, settles⟩ := s.host.resolve_settles w.frames key raw w.journal
  rw [settles w.journal (.refl _)] at resolved
  obtain ⟨rfl, grown⟩ := Prod.mk.inj resolved
  refine ⟨asked, ?_, fun other beside reuses => ?_⟩
  · rw [same, ← grown]
    simp [Walk.add]
  · have again := settles other.journal beside.calls
    rw [← beside.frames] at again
    simp only [lookUp, reusing, again]
    simp [Walk.add]

theorem compile_does (sound : Cache.Sound cache) (sound' : Cache.Sound cache')
    (read : s.compile text pair cache = (result, later)) (reuses : Bool) : ∃ later',
    Cache.Sound later' ∧ (s.reusing reuses).compile text pair cache' = (result, later') := by
  rcases again : (s.reusing reuses).compile text pair cache' with ⟨result', later'⟩
  obtain ⟨kept, same⟩ := compile_sound sound' again
  exact ⟨later', kept, by rw [same, (compile_sound sound read).2]⟩

theorem Course.place (course : s.Course depth task w visits o) :
    o.walk.frames = (task.within w).frames ∧ o.walk.indent = (task.within w).indent := by
  have looks {w middle : Walk} {key raw found} (looked : s.lookUp w key raw = (found, middle)) :
      middle.frames = w.frames ∧ middle.indent = w.indent := by
    rw [(lookUp_journal looked).2]
    exact ⟨rfl, rfl⟩
  induction course with
  | nil | noPass | tooDeep | refused | text | absent => exact ⟨rfl, rfl⟩
  | cons first later ih ih' => exact ⟨ih'.1.trans ih.1, ih'.2.trans ih.2⟩
  | stopped first ih | document inner ih => exact ih
  -- The frame that goes away after a pass is the one that was pushed before it.
  | pass first later ih ih' =>
    exact ⟨ih'.1.trans (congrArg Frames.pop ih.1), ih'.2.trans ih.2⟩
  | passStopped first ih => exact ⟨congrArg Frames.pop ih.1, ih.2⟩
  | expanded read inner ih => exact ih
  | silent looked | value looked | skipped looked | notInverse looked
  | interpolated looked | interpolationFailed looked | replaced looked | sectionFailed looked =>
    obtain ⟨frames, indent⟩ := looks looked
    exact ⟨frames, indent⟩
  | once looked passes inner ih | each looked passes inner ih | inverse looked nothing inner ih =>
    exact ⟨ih.1.trans (looks looked).1, ih.2.trans (looks looked).2⟩
  | referred found inner ih => exact ⟨ih.1, rfl⟩

def interpolated (s : Setting) (escaped : Bool) (text indent : String) : String :=
  indent ++ if escaped then s.options.escape.apply text else text

theorem writeInterpolated_eq (s : Setting) (escaped : Bool) (text : String) (w : Walk) :
    s.writeInterpolated escaped text w = w.add (s.interpolated escaped text w.indent) [] w.cache := by
  simp [writeInterpolated, interpolated, Walk.writeValue, Walk.add, String.append_assoc]

theorem Does.still (plain : ∀ w, task.within w = w)
    (course : ∀ other reuses, ∃ visits, (s.reusing reuses).Course depth task other visits ⟨other, fault⟩) :
    s.Does depth task w "" [] fault := by
  intro other beside reuses
  obtain ⟨visits, whole⟩ := course other reuses
  refine ⟨visits, other.cache, beside.sound, ?_⟩
  rw [plain, Walk.add_nothing]
  exact whole

theorem Does.behind {inner : Task}
    (does : s.Does depth inner (w.add "" asked w.cache) text more fault)
    (bare : ∀ w, inner.within w = w) (plain : ∀ w, task.within w = w)
    (wraps : ∀ other, w.Beside other → ∀ reuses visits o,
      (s.reusing reuses).Course depth inner (other.add "" asked other.cache) visits o →
        ∃ visits', (s.reusing reuses).Course depth task other visits' o) :
    s.Does depth task w text (more ++ asked) fault := by
  intro other beside reuses
  obtain ⟨visits, last, kept, course⟩ := does _ (beside.add "" asked _ beside.sound) reuses
  obtain ⟨visits', whole⟩ := wraps other beside reuses visits _ course
  rw [bare, Walk.add_add, String.empty_append] at whole
  exact ⟨visits', last, kept, by rwa [plain]⟩

theorem Does.around
    (does : s.Does depth (.expansion text pair scope) (w.add "" asked w.cache) shown more fault)
    (plain : ∀ w, task.within w = w)
    (wraps : ∀ other, w.Beside other → ∀ reuses visits last, last.out = shown →
      (s.reusing reuses).Course depth (.expansion text pair scope) (other.add "" asked other.cache)
        visits ⟨last, fault⟩ →
      ∃ visits', (s.reusing reuses).Course depth task other visits'
        ⟨((other.add "" asked other.cache).outside last).add written [] last.cache, fault⟩) :
    s.Does depth task w written (more ++ asked) fault := by
  intro other beside reuses
  obtain ⟨visits, last, kept, course⟩ := does _ (beside.add "" asked _ beside.sound) reuses
  obtain ⟨visits', whole⟩ := wraps other beside reuses visits _ (String.empty_append) course
  rw [Task.within, Walk.outside_add, Walk.add_add, Walk.add_add] at whole
  simp only [String.empty_append, List.nil_append] at whole
  exact ⟨visits', last, kept, by rwa [plain]⟩

theorem Course.does (course : s.Course depth task w visits o) (sound : w.cache.Sound) :
    ∃ text asked, s.Does depth task w text asked o.fault := by
  induction course with
  | nil => exact ⟨"", [], .still (fun _ => rfl) fun _ _ => ⟨_, .nil⟩⟩
  | cons first later ih ih' =>
    obtain ⟨text, asked, does⟩ := ih sound
    obtain ⟨cache, kept, same⟩ := does.outcome first sound
    cases same
    obtain ⟨more, further, goesOn⟩ := ih' kept
    refine ⟨text ++ more, further ++ asked, fun other beside reuses => ?_⟩
    obtain ⟨visits, cache', kept', first'⟩ := does other beside reuses
    obtain ⟨visits', last, kept'', later'⟩ := goesOn _ (beside.add text asked cache kept') reuses
    have whole := Course.cons first' later'
    rw [Task.within, Walk.add_add] at whole
    exact ⟨visits ++ visits', last, kept'', whole⟩
  | stopped first ih =>
    obtain ⟨text, asked, does⟩ := ih sound
    refine ⟨text, asked, fun other beside reuses => ?_⟩
    obtain ⟨visits, cache, kept, first'⟩ := does other beside reuses
    exact ⟨visits, cache, kept, .stopped first'⟩
  | noPass => exact ⟨"", [], .still (fun _ => rfl) fun _ _ => ⟨_, .noPass⟩⟩
  | pass first later ih ih' =>
    obtain ⟨text, asked, does⟩ := ih sound
    obtain ⟨cache, kept, same⟩ := does.outcome first sound
    cases same
    obtain ⟨more, further, goesOn⟩ := ih' kept
    refine ⟨text ++ more, further ++ asked, fun other beside reuses => ?_⟩
    obtain ⟨visits, cache', kept', first'⟩ := does _ (beside.push _) reuses
    obtain ⟨visits', last, kept'', later'⟩ := goesOn _ (beside.add text asked cache kept') reuses
    have whole := Course.pass first' later'
    rw [Task.within, Walk.add_add] at whole
    exact ⟨visits ++ visits', last, kept'', whole⟩
  | passStopped first ih =>
    obtain ⟨text, asked, does⟩ := ih sound
    refine ⟨text, asked, fun other beside reuses => ?_⟩
    obtain ⟨visits, cache, kept, first'⟩ := does _ (beside.push _) reuses
    exact ⟨visits, cache, kept, .passStopped first'⟩
  | tooDeep => exact ⟨"", [], .still (fun _ => rfl) fun _ _ => ⟨_, .tooDeep⟩⟩
  | document inner ih =>
    obtain ⟨text, asked, does⟩ := ih sound
    refine ⟨text, asked, fun other beside reuses => ?_⟩
    obtain ⟨visits, cache, kept, inner'⟩ := does other beside reuses
    exact ⟨visits, cache, kept, .document inner'⟩
  | refused read =>
    refine ⟨"", [], fun other beside reuses => ?_⟩
    obtain ⟨cache, kept, read'⟩ := compile_does sound beside.sound read reuses
    refine ⟨[], cache, kept, ?_⟩
    rw [Task.within, Walk.add_nothing]
    exact .refused read'
  | expanded read inner ih =>
    obtain ⟨kept, -⟩ := compile_sound sound read
    obtain ⟨text, asked, does⟩ := ih kept
    refine ⟨text, asked, fun other beside reuses => ?_⟩
    obtain ⟨first, kept', read'⟩ := compile_does sound beside.sound read reuses
    obtain ⟨visits, last, kept'', inner'⟩ := does _ (beside.inside _ _ kept') reuses
    exact ⟨visits, last, kept'', .expanded read' inner'⟩
  | @text depth run w =>
    refine ⟨Indent.apply w.indent run, [], fun other beside reuses => ?_⟩
    refine ⟨[⟨.text run, other⟩], other.cache, beside.sound, ?_⟩
    rw [← beside.indent]
    exact .text
  | silent looked nothing =>
    obtain ⟨asked, -, looks⟩ := lookUp_does looked
    refine ⟨"", asked, fun other beside reuses => ?_⟩
    exact ⟨_, other.cache, beside.sound, .silent (looks other beside reuses) nothing⟩
  | @value w key middle value depth escaped looked shown =>
    obtain ⟨asked, rfl, looks⟩ := lookUp_does looked
    refine ⟨s.interpolated escaped value.toText w.indent, asked, fun other beside reuses => ?_⟩
    have whole : (s.reusing reuses).Course depth (.node (.interpolation key escaped)) other _ _ :=
      .value (looks other beside reuses) shown
    rw [writeInterpolated_eq, Walk.add_add, String.empty_append] at whole
    rw [← beside.indent]
    exact ⟨_, other.cache, beside.sound, whole⟩
  | @interpolated w key text scope middle depth visits last escaped looked inner ih =>
    obtain ⟨asked, rfl, looks⟩ := lookUp_does looked
    obtain ⟨shown, more, does⟩ := ih sound
    refine ⟨s.interpolated escaped shown w.indent, more ++ asked, does.around (fun _ => rfl) ?_⟩
    intro other beside reuses visits last same course
    have whole : (s.reusing reuses).Course depth (.node (.interpolation key escaped)) other _ _ :=
      .interpolated (looks other beside reuses) course
    rw [writeInterpolated_eq, same] at whole
    rw [← beside.indent]
    exact ⟨_, whole⟩
  | interpolationFailed looked inner ih =>
    obtain ⟨asked, rfl, looks⟩ := lookUp_does looked
    obtain ⟨shown, more, does⟩ := ih sound
    refine ⟨"", more ++ asked, does.around (fun _ => rfl) ?_⟩
    intro other beside reuses visits last same course
    rw [Walk.add_nothing]
    exact ⟨_, (Course.interpolationFailed (looks other beside reuses) course :)⟩
  | skipped looked nothing =>
    obtain ⟨asked, -, looks⟩ := lookUp_does looked
    refine ⟨"", asked, fun other beside reuses => ?_⟩
    exact ⟨_, other.cache, beside.sound, .skipped (looks other beside reuses) nothing⟩
  | once looked passes inner ih =>
    obtain ⟨asked, rfl, looks⟩ := lookUp_does looked
    obtain ⟨text, more, does⟩ := ih sound
    refine ⟨text, more ++ asked, does.behind (fun _ => rfl) (fun _ => rfl) ?_⟩
    intro other beside reuses visits o course
    exact ⟨_, .once (looks other beside reuses) passes course⟩
  | each looked passes inner ih =>
    obtain ⟨asked, rfl, looks⟩ := lookUp_does looked
    obtain ⟨text, more, does⟩ := ih sound
    refine ⟨text, more ++ asked, does.behind (fun _ => rfl) (fun _ => rfl) ?_⟩
    intro other beside reuses visits o course
    exact ⟨_, .each (looks other beside reuses) passes course⟩
  | replaced looked inner ih =>
    obtain ⟨asked, rfl, looks⟩ := lookUp_does looked
    obtain ⟨shown, more, does⟩ := ih sound
    refine ⟨shown, more ++ asked, does.around (fun _ => rfl) ?_⟩
    intro other beside reuses visits last same course
    rw [← same]
    exact ⟨_, .replaced (looks other beside reuses) course⟩
  | sectionFailed looked inner ih =>
    obtain ⟨asked, rfl, looks⟩ := lookUp_does looked
    obtain ⟨shown, more, does⟩ := ih sound
    refine ⟨"", more ++ asked, does.around (fun _ => rfl) ?_⟩
    intro other beside reuses visits last same course
    rw [Walk.add_nothing]
    exact ⟨_, (Course.sectionFailed (looks other beside reuses) course :)⟩
  | inverse looked nothing inner ih =>
    obtain ⟨asked, rfl, looks⟩ := lookUp_does looked
    obtain ⟨text, more, does⟩ := ih sound
    refine ⟨text, more ++ asked, does.behind (fun _ => rfl) (fun _ => rfl) ?_⟩
    intro other beside reuses visits o course
    exact ⟨_, .inverse (looks other beside reuses) nothing course⟩
  | notInverse looked something =>
    obtain ⟨asked, -, looks⟩ := lookUp_does looked
    refine ⟨"", asked, fun other beside reuses => ?_⟩
    exact ⟨_, other.cache, beside.sound, .notInverse (looks other beside reuses) something⟩
  | absent missing =>
    refine ⟨"", [], .still (fun _ => rfl) fun other reuses => ?_⟩
    have missing' : (s.reusing reuses).partials.get? _ = none := missing
    exact ⟨_, .absent missing'⟩
  | referred found inner ih =>
    obtain ⟨text, asked, does⟩ := ih sound
    refine ⟨text, asked, fun other beside reuses => ?_⟩
    obtain ⟨visits, cache, kept, inner'⟩ := does _ (beside.refer _) reuses
    have found' : (s.reusing reuses).partials.get? _ = some _ := found
    exact ⟨_, cache, kept, .referred found' inner'⟩

end Setting
end Mustache
