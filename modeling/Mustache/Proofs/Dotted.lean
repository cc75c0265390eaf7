import Mustache.Host.Script
import Mustache.Proofs.Member
import Mustache.Render.Walk

namespace Mustache

def IsSegment (key : String) : Prop := key ≠ "" ∧ '.' ∉ key.toList

theorem segmentsFrom_dotless (dotless : '.' ∉ path) (word : List Char) :
    segmentsFrom word path = [word.reverse ++ path] := by
  induction path generalizing word with
  | nil => rw [segmentsFrom, List.append_nil]
  | cons c path ih =>
    obtain ⟨other, rest⟩ := List.ne_and_not_mem_of_not_mem_cons dotless
    rw [segmentsFrom, if_neg (Ne.symm other), ih rest]
    simp

theorem segmentsFrom_append (dotless : '.' ∉ first) (word rest : List Char) :
    segmentsFrom word (first ++ '.' :: rest) = (word.reverse ++ first) :: segmentsFrom [] rest := by
  induction first generalizing word with
  | nil => simp [segmentsFrom]
  | cons c first ih =>
    obtain ⟨other, later⟩ := List.ne_and_not_mem_of_not_mem_cons dotless
    rw [List.cons_append, segmentsFrom, if_neg (Ne.symm other), ih later]
    simp

theorem segments_of_segment (segment : IsSegment key) : segments key = [key] := by
  rw [segments, segmentsFrom_dotless segment.2]
  simp

theorem segments_intercalate (full : keys ≠ []) (named : ∀ key ∈ keys, IsSegment key) :
    segments (".".intercalate keys) = keys := by
  induction keys with
  | nil => exact absurd rfl full
  | cons key keys ih =>
    obtain ⟨first, rest⟩ := List.forall_mem_cons.mp named
    by_cases last : keys = []
    · subst last
      rw [String.intercalate_singleton, segments_of_segment first]
    · have later := ih last rest
      rw [segments] at later ⊢
      rw [String.intercalate_cons_of_ne_nil last, String.toList_append, String.toList_append,
        List.append_assoc]
      change (segmentsFrom [] (key.toList ++ '.' :: (".".intercalate keys).toList)).map _ = _
      rw [segmentsFrom_append first.2, List.map_cons, later]
      simp

theorem ne_dot_of_segment (segment : IsSegment key) : key ≠ "." := by
  rintro rfl
  exact segment.2 (by decide)

theorem intercalate_ne_dot (named : ∀ own ∈ key :: keys, IsSegment own) :
    ".".intercalate (key :: keys) ≠ "." := by
  intro dot
  have parts := segments_intercalate (List.cons_ne_nil key keys) named
  rw [dot, show segments "." = ["", ""] by decide +kernel] at parts
  exact (named key List.mem_cons_self).1 (List.cons.inj parts).1.symm

def Resolved.under (outer : List Value) : Resolved → Resolved
  | .value own => .value own
  | .template text scope => .template text (outer ++ scope)

theorem Found.toResolved_append (found : Found) (outer scope : List Value) :
    found.toResolved (outer ++ scope) = (found.toResolved scope).under outer := by
  obtain ⟨value, fromLambda⟩ := found
  cases value <;> cases fromLambda <;> rfl

namespace Host
variable {host : Host}

def first? (host : Host) (frames : List Value) (key : String) : Option Value :=
  frames.findSome? (host.held · key)

-- A way down through maps and records, each stored in the one before it.
inductive Way (host : Host) (last : Value) : Value → List String → List Value → Prop where
  | here (compound : last.isCompound = true) : Way host last last [] [last]
  | down (compound : value.isCompound = true) (held : host.held value key = some next)
      (way : Way host last next keys values) : Way host last value (key :: keys) (value :: values)

theorem Way.compound (way : host.Way last value keys values) : value.isCompound = true := by
  cases way <;> assumption

theorem lookFor_first (first : host.first? frames key = some value)
    (plain : ∀ lambda, value ≠ .lambda lambda) (journal : Journal) : ∃ after,
      (∀ lambda, after.callsOf lambda = journal.callsOf lambda) ∧
      ∀ raw keys, host.lookFor raw key keys frames journal =
        host.descend raw ⟨value, false⟩ [] keys after := by
  induction frames generalizing journal with
  | nil => cases first
  | cons frame outer ih =>
    rw [first?, List.findSome?_cons] at first
    cases held : host.held frame key with
    | none =>
      rw [held] at first
      obtain ⟨after, same, finds⟩ := ih first (trace frame key ++ journal)
      refine ⟨after, fun lambda => (same lambda).trans (callsOf_trace frame key journal lambda), ?_⟩
      intro raw keys
      rw [lookFor, step_missing held]
      exact finds raw keys
    | some member =>
      rw [held] at first
      cases first
      refine ⟨trace frame key ++ journal, callsOf_trace frame key journal, fun raw keys => ?_⟩
      rw [lookFor, step_plain held plain]

theorem descend_append (host : Host) (raw : String) (found : Found) (scope outer : List Value)
    (keys : List String) (journal : Journal) :
    host.descend raw found (scope ++ outer) keys journal =
      ((host.descend raw found scope keys journal).1.map (Resolved.under outer.reverse),
        (host.descend raw found scope keys journal).2) := by
  induction keys generalizing found scope journal with
  | nil => rw [descend, List.reverse_append, Found.toResolved_append]; rfl
  | cons key keys ih =>
    rw [descend, descend]
    rcases host.step raw found.value key journal with ⟨_ | next, later⟩
    · rfl
    · exact ih next (found.value :: scope) later

theorem descend_push (yields : host.Yields key value) (segment : IsSegment key) (frames : Frames)
    (raw : String) (journal : Journal) :
    host.descend raw ⟨value, false⟩ [] [key] journal =
      ((host.resolve (frames.push value) key raw journal).1.map (Resolved.under [value]),
        (host.resolve (frames.push value) key raw journal).2) := by
  rw [resolve_eq (ne_dot_of_segment segment) (segments_of_segment segment)]
  change _ = ((host.lookFor raw key [] (value :: frames.toList) journal).1.map _,
    (host.lookFor raw key [] (value :: frames.toList) journal).2)
  rw [descend, lookFor]
  rcases met : host.step raw value key journal with ⟨_ | next, later⟩
  · exact absurd yields ((host.step_none_iff raw value key journal).mp (by rw [met]))
  · exact host.descend_append raw next [] [value] [] later

theorem toResolved_of_compound (compound : value.isCompound = true) (scope : List Value) :
    Found.toResolved ⟨value, false⟩ scope = .value value := by
  cases value with
  | map _ | record _ => rfl
  | _ => cases compound

theorem resolve_first (first : host.first? frames.toList key = some value)
    (compound : value.isCompound = true) (segment : IsSegment key) (journal : Journal) : ∃ after,
      (∀ lambda, after.callsOf lambda = journal.callsOf lambda) ∧
      (∀ raw, host.resolve frames key raw journal = (some (.value value), after)) ∧
      ∀ path raw keys, path ≠ "." → segments path = key :: keys →
        host.resolve frames path raw journal = host.descend raw ⟨value, false⟩ [] keys after := by
  obtain ⟨after, same, finds⟩ := lookFor_first first (Value.plain_of_compound compound) journal
  refine ⟨after, same, fun raw => ?_, fun path raw keys other parts => ?_⟩
  · rw [resolve_eq (ne_dot_of_segment segment) (segments_of_segment segment), finds, descend,
      toResolved_of_compound compound]
  · rw [resolve_eq other parts, finds]

theorem resolve_push_of_compound (held : host.held value key = some member)
    (compound : member.isCompound = true) (segment : IsSegment key) (frames : Frames) (raw : String)
    (journal : Journal) : host.resolve (frames.push value) key raw journal =
      (some (.value member), trace value key ++ journal) := by
  rw [resolve_eq (ne_dot_of_segment segment) (segments_of_segment segment)]
  change host.lookFor raw key [] (value :: frames.toList) journal = _
  rw [lookFor, step_plain held (Value.plain_of_compound compound)]
  dsimp only
  rw [descend, toResolved_of_compound compound]

theorem Way.descend (way : host.Way last value keys values) (name raw : String)
    (scope : List Value) (journal : Journal) : ∃ after,
      (∀ lambda, after.callsOf lambda = journal.callsOf lambda) ∧
      host.descend raw ⟨value, false⟩ scope (keys ++ [name]) journal =
        ((host.step raw last name after).1.map (Found.toResolved · (scope.reverse ++ values)),
          (host.step raw last name after).2) := by
  induction way generalizing scope journal with
  | here compound =>
    refine ⟨journal, fun _ => rfl, ?_⟩
    rw [List.nil_append, Host.descend]
    rcases host.step raw last name journal with ⟨_ | next, later⟩
    · rfl
    · simp [Host.descend]
  | @down value key next keys values compound held way ih =>
    obtain ⟨after, same, descends⟩ := ih (value :: scope) (trace value key ++ journal)
    refine ⟨after, fun lambda => (same lambda).trans (callsOf_trace value key journal lambda), ?_⟩
    rw [List.cons_append, Host.descend, step_plain held (Value.plain_of_compound way.compound)]
    simpa using descends

end Host

-- What the start of a section says: its key, and what the section keeps of its source.
structure SectionStart where
  key : String
  rawText : String
  delimiters : Delimiters

def Node.nested : List SectionStart → Node → Node
  | [], inner => inner
  | start :: rest, inner =>
    .block false start.key [inner.nested rest] start.rawText start.delimiters

def Walk.push (w : Walk) (value : Value) : Walk := { w with frames := w.frames.push value }

def Outcome.inFrames (o : Outcome) (frames : Frames) : Outcome :=
  ⟨{ o.walk with frames := frames }, o.fault⟩

namespace Setting
variable {s : Setting} {enter : List Node → Walk → Outcome}

def fill (s : Setting) (enter : List Node → Walk → Outcome) (escaped : Bool) :
    Option Resolved → Walk → Outcome
  | none, w => w.done
  | some (.value .null), w => w.done
  | some (.value value), w => (s.writeInterpolated escaped value.toText w).done
  | some (.template text scope), w =>
    match s.expand enter text .standard scope w with
    | (.error fault, w) => ⟨w, some fault⟩
    | (.ok text, w) => (s.writeInterpolated escaped text w).done

theorem interpolate_eq (s : Setting) (enter : List Node → Walk → Outcome) (key : String)
    (escaped : Bool) (w : Walk) : s.interpolate enter key escaped w =
      s.fill enter escaped (s.lookUp w key "").1 (s.lookUp w key "").2 := by
  rw [interpolate]
  rcases s.lookUp w key "" with ⟨_ | ⟨value⟩ | ⟨text, scope⟩, w⟩
  · rfl
  · cases value <;> rfl
  · rfl

theorem expand_push (s : Setting) (enter : List Node → Walk → Outcome) (text : String)
    (pair : Delimiters) (value : Value) (scope : List Value) (w : Walk) :
    s.expand enter text pair scope (w.push value) =
      ((s.expand enter text pair (value :: scope) w).1,
        { (s.expand enter text pair (value :: scope) w).2 with frames := w.frames.push value }) := by
  have same : (w.frames.push value).extend scope = w.frames.extend (value :: scope) := by
    simp [Frames.extend, Frames.push]
  simp only [expand, Walk.push, same]
  rcases s.compile text pair w.cache with ⟨cause | document, cache⟩
  · rfl
  · dsimp only
    rcases enter document.root _ with ⟨inner, _ | fault⟩ <;> rfl

theorem expand_frames (s : Setting) (enter : List Node → Walk → Outcome) (text : String)
    (pair : Delimiters) (scope : List Value) (w : Walk) :
    (s.expand enter text pair scope w).2.frames = w.frames := by
  rw [expand]
  rcases s.compile text pair w.cache with ⟨cause | document, cache⟩
  · rfl
  · dsimp only
    rcases enter document.root _ with ⟨inner, _ | fault⟩ <;> rfl

theorem fill_push (s : Setting) (enter : List Node → Walk → Outcome) (escaped : Bool)
    (found : Option Resolved) (value : Value) (w : Walk) :
    s.fill enter escaped found (w.push value) =
      (s.fill enter escaped (found.map (Resolved.under [value])) w).inFrames
        (w.frames.push value) := by
  rcases found with _ | ⟨shown⟩ | ⟨text, scope⟩
  · rfl
  · cases shown <;> rfl
  · rw [fill, expand_push, Option.map_some, Resolved.under, List.singleton_append, fill]
    rcases s.expand enter text .standard (value :: scope) w with ⟨fault | text, later⟩ <;> rfl

theorem fill_inFrames (s : Setting) (enter : List Node → Walk → Outcome) (escaped : Bool)
    (found : Option Resolved) (w : Walk) :
    (s.fill enter escaped found w).inFrames w.frames = s.fill enter escaped found w := by
  rcases found with _ | ⟨shown⟩ | ⟨text, scope⟩
  · rfl
  · cases shown <;> rfl
  · have same := s.expand_frames enter text .standard scope w
    rw [fill]
    rcases met : s.expand enter text .standard scope w with ⟨_ | _, later⟩ <;> rw [met] at same <;>
      rw [← same] <;> rfl

theorem section_of_compound {start : SectionStart}
    (looked : s.lookUp w start.key start.rawText = (some (.value value), middle))
    (compound : value.isCompound = true) (rest : List SectionStart) (inner : Node) :
    s.visit enter (inner.nested (start :: rest)) w =
      let o := s.visit enter (inner.nested rest) (middle.push value)
      o.inFrames o.walk.frames.pop := by
  rw [Node.nested, visit, if_neg Bool.false_ne_true, showSection, looked]
  have passes : Passes.of value = .each [value] := by
    cases value with
    | map _ | record _ => rfl
    | _ => cases compound
  simp only [passes, passEach, visitAll, Walk.push]
  rcases s.visit enter (inner.nested rest) _ with ⟨later, _ | fault⟩ <;> rfl

-- Inside a section over the first value of a way, the nested sections do what an interpolation does
-- with what the way down leads to. The induction is on the sections.
theorem visit_nested {starts : List SectionStart} {value : Value}
    (way : s.host.Way last value (starts.map SectionStart.key) values)
    (named : ∀ start ∈ starts, IsSegment start.key) (segment : IsSegment name)
    (yields : s.host.Yields name last) (escaped : Bool) (w : Walk) :
    s.visit enter ((Node.interpolation name escaped).nested starts) (w.push value) =
      let (found, journal) := s.host.descend "" ⟨value, false⟩ []
        (starts.map SectionStart.key ++ [name]) w.journal
      (s.fill enter escaped found { w with journal := journal }).inFrames
        (w.frames.push value) := by
  induction starts generalizing value values w with
  | nil =>
    cases way
    rw [List.map_nil, List.nil_append, s.host.descend_push yields segment w.frames]
    rw [Node.nested, visit, interpolate_eq, lookUp, Walk.push]
    rcases s.host.resolve (w.frames.push last) name "" w.journal with ⟨found, journal⟩
    exact s.fill_push enter escaped found last { w with journal := journal }
  | cons start starts ih =>
    obtain ⟨here, rest⟩ := List.forall_mem_cons.mp named
    cases way with
    | @down value _ next _ values compound held way =>
      let middle : Walk := { w with journal := Host.trace value start.key ++ w.journal }
      have looked : s.lookUp (w.push value) start.key start.rawText =
          (some (.value next), middle.push value) := by
        rw [lookUp, Walk.push, s.host.resolve_push_of_compound held way.compound here]
        rfl
      have down : s.host.descend "" ⟨value, false⟩ []
          ((start :: starts).map SectionStart.key ++ [name]) w.journal =
          s.host.descend "" ⟨next, false⟩ ([] ++ [value])
            (starts.map SectionStart.key ++ [name]) (middle.push value).journal := by
        rw [List.map_cons, List.cons_append, Host.descend,
          Host.step_plain held (Value.plain_of_compound way.compound)]
        rfl
      rw [section_of_compound looked way.compound, ih way rest, down, Host.descend_append]
      rcases s.host.descend "" ⟨next, false⟩ [] (starts.map SectionStart.key ++ [name])
        (middle.push value).journal with ⟨found, journal⟩
      -- The value joins the frames on the one side, and the scope of a text on the other.
      have same := s.fill_inFrames enter escaped found ({ w with journal := journal }.push value)
      exact same.trans (s.fill_push enter escaped found value { w with journal := journal })

-- A dotted path has the outcome of sections inside each other, with the last segment inside them all.
-- This holds where the first segment leads to a map or a record without the call of a lambda, the
-- way goes on from there through maps and records stored directly, and the last of them has a member
-- under the last segment that is not a void lambda. A text from a lambda there is read with the values
-- on the way as its innermost scope, and for a null nothing is written.
theorem visit_dotted (s : Setting) (enter : List Node → Walk → Outcome) (escaped : Bool) (w : Walk)
    {start : SectionStart} {starts : List SectionStart}
    (named : ∀ own ∈ start :: starts, IsSegment own.key) (segment : IsSegment name)
    (first : s.host.first? w.frames.toList start.key = some value)
    (way : s.host.Way last value (starts.map SectionStart.key) values)
    (held : s.host.held last name = some member) (full : member.isVoid = false)
    (joined : path = ".".intercalate ((start :: starts).map SectionStart.key ++ [name])) :
    s.visit enter (.interpolation path escaped) w =
      s.visit enter ((Node.interpolation name escaped).nested (start :: starts)) w ∧
    (∀ own text, member = .lambda own →
      s.host.answer own (w.journal.callsOf own) "" = .text text →
      (s.lookUp w path "").1 = some (.template text values)) ∧
    (member = .null → ∃ journal,
      s.visit enter (.interpolation path escaped) w = { w with journal := journal }.done) := by
  obtain ⟨here, rest⟩ := List.forall_mem_cons.mp named
  have keys : ∀ key ∈ (start :: starts).map SectionStart.key ++ [name], IsSegment key :=
    List.forall_mem_append.mpr ⟨List.forall_mem_map.mpr named, List.forall_mem_singleton.mpr segment⟩
  have parts : segments path = start.key :: (starts.map SectionStart.key ++ [name]) :=
    joined ▸ segments_intercalate (List.cons_ne_nil _ _) keys
  obtain ⟨after, same, begins, goes⟩ := Host.resolve_first first way.compound here w.journal
  have looked := goes path "" _ (joined ▸ intercalate_ne_dot keys) parts
  have begun : s.lookUp w start.key start.rawText =
      (some (.value value), { w with journal := after }) := by
    rw [lookUp, begins]
  obtain ⟨reached, calls, descends⟩ := way.descend name "" [] after
  refine ⟨?_, ?_, ?_⟩
  · rw [section_of_compound begun way.compound,
      visit_nested way rest segment ⟨member, held, full⟩, visit, interpolate_eq, lookUp, looked]
    rcases s.host.descend "" ⟨value, false⟩ [] (starts.map SectionStart.key ++ [name]) after
      with ⟨found, journal⟩
    exact (s.fill_inFrames enter escaped found { w with journal := journal }).symm
  · rintro own text rfl answer
    rw [← same, ← calls] at answer
    rw [lookUp, looked, descends, Host.step_answer held full, answer]
    rfl
  · rintro rfl
    rw [visit, interpolate_eq, lookUp, looked, descends, Host.step_plain held (by simp)]
    exact ⟨_, rfl⟩

end Setting
-- A record with a map that has a lambda, the name for which its text asks, and a null. The frame
-- inside has other values under the same names.
namespace Greeting

def greeting : Value :=
  .map [("greet", .lambda ⟨0, false⟩), ("name", .text "Ada"), ("none", .null)]

def host : Host :=
  .ofScripts #[.constant (.text "Hi \x7b\x7bname\x7d\x7d")] #[⟨[("b", greeting)], false⟩]

def setting : Setting := ⟨host, [], .standard, true⟩

def record : Value := .record ⟨0, "r"⟩

def frames : Frames :=
  ⟨[.map [("b", .map [("greet", .text "wrong")]), ("name", .text "outer")]], .map [("a", record)]⟩

def before : Walk := ⟨frames, " ", "", [], []⟩

def starts : List SectionStart :=
  [⟨"a", "\x7b\x7b#b\x7d\x7d", .standard⟩, ⟨"b", "<greet>", ⟨"<", ">"⟩⟩]

theorem named : ∀ start ∈ starts, IsSegment start.key := by
  unfold IsSegment starts
  decide +kernel

theorem greet_segment : IsSegment "greet" := by
  unfold IsSegment
  decide +kernel

theorem none_segment : IsSegment "none" := by
  unfold IsSegment
  decide +kernel

theorem way : host.Way greeting record ["b"] [record, greeting] := .down rfl rfl (.here rfl)

end Greeting

open Greeting in
theorem Setting.visit_dotted_greeting :
    setting.visit (setting.walk 1) (.interpolation "a.b.greet" true) before =
      setting.visit (setting.walk 1) ((Node.interpolation "greet" true).nested starts) before ∧
    (setting.lookUp before "a.b.greet" "").1 =
      some (.template "Hi \x7b\x7bname\x7d\x7d" [record, greeting]) ∧
    (setting.visit (setting.walk 1) (.interpolation "a.b.greet" true) before).walk.out = " Hi Ada" ∧
    ∃ journal, setting.visit (setting.walk 1) (.interpolation "a.b.none" true) before =
      { before with journal := journal }.done := by
  obtain ⟨same, text, -⟩ := setting.visit_dotted (setting.walk 1) true before named greet_segment
    rfl way rfl rfl (show "a.b.greet" = _ by decide +kernel)
  obtain ⟨-, -, null⟩ := setting.visit_dotted (setting.walk 1) true before named none_segment
    rfl way rfl rfl (show "a.b.none" = _ by decide +kernel)
  exact ⟨same, text _ _ rfl rfl, by decide +kernel, null rfl⟩

end Mustache
