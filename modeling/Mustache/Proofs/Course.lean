import Mustache.Render.Walk

namespace Mustache

-- A node that a walk comes to, in the state in which it comes there.
structure Visit where
  node : Node
  walk : Walk

-- What a walk has to do: one node, nodes one behind the other, a pass over some children for each
-- of the items, the nodes of a partial or of a document, and a text from a lambda.
inductive Task where
  | node (node : Node)
  | nodes (nodes : List Node)
  | passes (children : List Node) (items : List Value)
  | document (nodes : List Node)
  | expansion (text : String) (pair : Delimiters) (scope : List Value)

def Resolved.IsNothing (found : Option Resolved) : Prop :=
  ∀ r, found = some r → ∃ value, r = .value value ∧ Passes.of value = .skip

namespace Walk

def inside (w : Walk) (scope : List Value) (cache : Cache) : Walk :=
  ⟨w.frames.extend scope, "", "", cache, w.journal⟩

def outside (w inner : Walk) : Walk := { w with cache := inner.cache, journal := inner.journal }

end Walk

namespace Setting

-- How a walk goes: the nodes that it comes to, in order and with those of partials and of texts from
-- lambdas among them, and the outcome.
inductive Course (s : Setting) : Nat → Task → Walk → List Visit → Outcome → Prop where
  | nil : Course s depth (.nodes []) w [] w.done
  | cons (first : Course s depth (.node node) w visits ⟨middle, none⟩)
      (later : Course s depth (.nodes rest) middle more o) :
      Course s depth (.nodes (node :: rest)) w (visits ++ more) o
  | stopped (first : Course s depth (.node node) w visits ⟨last, some fault⟩) :
      Course s depth (.nodes (node :: rest)) w visits ⟨last, some fault⟩
  | noPass : Course s depth (.passes children []) w [] w.done
  | pass (first : Course s depth (.nodes children) { w with frames := w.frames.push item } visits
        ⟨middle, none⟩)
      (later : Course s depth (.passes children items) { middle with frames := middle.frames.pop }
        more o) :
      Course s depth (.passes children (item :: items)) w (visits ++ more) o
  | passStopped (first : Course s depth (.nodes children) { w with frames := w.frames.push item }
        visits ⟨last, some fault⟩) :
      Course s depth (.passes children (item :: items)) w visits
        ⟨{ last with frames := last.frames.pop }, some fault⟩
  | tooDeep : Course s 0 (.document nodes) w [] ⟨w, some .tooDeep⟩
  | document (inner : Course s depth (.nodes nodes) w visits o) :
      Course s (depth + 1) (.document nodes) w visits o
  | refused (read : s.compile text pair w.cache = (.error cause, cache)) :
      Course s depth (.expansion text pair scope) w [] ⟨w.inside scope cache, some (.parse cause)⟩
  | expanded (read : s.compile text pair w.cache = (.ok d, cache))
      (inner : Course s depth (.document d.root) (w.inside scope cache) visits o) :
      Course s depth (.expansion text pair scope) w visits o
  | text : Course s depth (.node (.text run)) w [⟨.text run, w⟩] (w.writeText run).done
  | silent (looked : s.lookUp w key "" = (found, middle))
      (nothing : found = none ∨ found = some (.value .null)) :
      Course s depth (.node (.interpolation key escaped)) w [⟨.interpolation key escaped, w⟩]
        middle.done
  | value (looked : s.lookUp w key "" = (some (.value value), middle)) (shown : value ≠ .null) :
      Course s depth (.node (.interpolation key escaped)) w [⟨.interpolation key escaped, w⟩]
        (s.writeInterpolated escaped value.toText middle).done
  | interpolated (looked : s.lookUp w key "" = (some (.template text scope), middle))
      (inner : Course s depth (.expansion text .standard scope) middle visits ⟨last, none⟩) :
      Course s depth (.node (.interpolation key escaped)) w
        (⟨.interpolation key escaped, w⟩ :: visits)
        (s.writeInterpolated escaped last.out (middle.outside last)).done
  | interpolationFailed (looked : s.lookUp w key "" = (some (.template text scope), middle))
      (inner : Course s depth (.expansion text .standard scope) middle visits ⟨last, some fault⟩) :
      Course s depth (.node (.interpolation key escaped)) w
        (⟨.interpolation key escaped, w⟩ :: visits) ⟨middle.outside last, some fault⟩
  | skipped (looked : s.lookUp w key raw = (found, middle)) (nothing : Resolved.IsNothing found) :
      Course s depth (.node (.block false key children raw pair)) w
        [⟨.block false key children raw pair, w⟩] middle.done
  | once (looked : s.lookUp w key raw = (some (.value value), middle))
      (passes : Passes.of value = .once)
      (inner : Course s depth (.nodes children) middle visits o) :
      Course s depth (.node (.block false key children raw pair)) w
        (⟨.block false key children raw pair, w⟩ :: visits) o
  | each (looked : s.lookUp w key raw = (some (.value value), middle))
      (passes : Passes.of value = .each items)
      (inner : Course s depth (.passes children items) middle visits o) :
      Course s depth (.node (.block false key children raw pair)) w
        (⟨.block false key children raw pair, w⟩ :: visits) o
  | replaced (looked : s.lookUp w key raw = (some (.template text scope), middle))
      (inner : Course s depth (.expansion text pair scope) middle visits ⟨last, none⟩) :
      Course s depth (.node (.block false key children raw pair)) w
        (⟨.block false key children raw pair, w⟩ :: visits)
        ((middle.outside last).writePlain last.out).done
  | sectionFailed (looked : s.lookUp w key raw = (some (.template text scope), middle))
      (inner : Course s depth (.expansion text pair scope) middle visits ⟨last, some fault⟩) :
      Course s depth (.node (.block false key children raw pair)) w
        (⟨.block false key children raw pair, w⟩ :: visits) ⟨middle.outside last, some fault⟩
  | inverse (looked : s.lookUp w key raw = (found, middle)) (nothing : Resolved.IsNothing found)
      (inner : Course s depth (.nodes children) middle visits o) :
      Course s depth (.node (.block true key children raw pair)) w
        (⟨.block true key children raw pair, w⟩ :: visits) o
  | notInverse (looked : s.lookUp w key raw = (found, middle))
      (something : ¬ Resolved.IsNothing found) :
      Course s depth (.node (.block true key children raw pair)) w
        [⟨.block true key children raw pair, w⟩] middle.done
  | absent (missing : s.partials.get? key = none) :
      Course s depth (.node (.reference key indent)) w [⟨.reference key indent, w⟩] w.done
  | referred (found : s.partials.get? key = some nodes)
      (inner : Course s depth (.document nodes) { w with indent := w.indent ++ indent } visits o) :
      Course s depth (.node (.reference key indent)) w (⟨.reference key indent, w⟩ :: visits)
        { o with walk := { o.walk with indent := w.indent } }

variable {s : Setting} {depth : Nat}

theorem lookUp_journal (looked : s.lookUp w key raw = (found, middle)) :
    s.host.resolve w.frames key raw w.journal = (found, middle.journal) ∧
      middle = { w with journal := middle.journal } := by
  unfold lookUp at looked
  simp only [Prod.mk.injEq] at looked
  obtain ⟨rfl, rfl⟩ := looked
  exact ⟨rfl, rfl⟩

theorem expand_course (entered : ∀ nodes w, ∃ visits,
      Course s depth (.document nodes) w visits (s.walk depth nodes w))
    (text : String) (pair : Delimiters) (scope : List Value) (w : Walk) : ∃ visits last,
      (∃ fault, s.expand (s.walk depth) text pair scope w = (.error fault, w.outside last) ∧
        Course s depth (.expansion text pair scope) w visits ⟨last, some fault⟩) ∨
      s.expand (s.walk depth) text pair scope w = (.ok last.out, w.outside last) ∧
        Course s depth (.expansion text pair scope) w visits ⟨last, none⟩ := by
  unfold expand
  rcases read : s.compile text pair w.cache with ⟨cause | d, cache⟩
  · exact ⟨[], w.inside scope cache, Or.inl ⟨.parse cause, rfl, .refused read⟩⟩
  · obtain ⟨visits, inner⟩ := entered d.root (w.inside scope cache)
    dsimp only
    rcases reached : s.walk depth d.root (w.inside scope cache) with ⟨last, fault⟩
    rw [reached] at inner
    have same : s.walk depth d.root ⟨w.frames.extend scope, "", "", cache, w.journal⟩ = ⟨last, fault⟩ :=
      reached
    rw [same]
    cases fault with
    | none => exact ⟨visits, last, Or.inr ⟨rfl, .expanded read inner⟩⟩
    | some fault => exact ⟨visits, last, Or.inl ⟨fault, rfl, .expanded read inner⟩⟩

theorem passEach_course (body : ∀ w, ∃ visits, Course s depth (.nodes children) w visits
      (s.visitAll (s.walk depth) children w)) (items : List Value) (w : Walk) : ∃ visits,
    Course s depth (.passes children items) w visits
      (passEach (s.visitAll (s.walk depth) children) items w) := by
  induction items generalizing w with
  | nil => exact ⟨[], .noPass⟩
  | cons item items ih =>
    obtain ⟨visits, first⟩ := body { w with frames := w.frames.push item }
    unfold passEach
    dsimp only
    rcases reached : s.visitAll (s.walk depth) children { w with frames := w.frames.push item } with
      ⟨middle, fault⟩
    rw [reached] at first
    cases fault with
    | some fault => exact ⟨visits, .passStopped first⟩
    | none =>
      obtain ⟨more, later⟩ := ih { middle with frames := middle.frames.pop }
      exact ⟨visits ++ more, .pass first later⟩

theorem isNothing_none : Resolved.IsNothing none := fun _ same => by cases same

theorem isNothing_value : Resolved.IsNothing (some (.value value)) ↔ Passes.of value = .skip := by
  constructor
  · intro nothing
    obtain ⟨own, same, skip⟩ := nothing _ rfl
    cases same
    exact skip
  · rintro skip _ ⟨⟩
    exact ⟨value, rfl, skip⟩

theorem not_isNothing_template : ¬ Resolved.IsNothing (some (.template text scope)) := by
  intro nothing
  obtain ⟨value, same, -⟩ := nothing _ rfl
  cases same

theorem isSkip_iff : (Passes.of value).isSkip = true ↔ Passes.of value = .skip := by
  cases Passes.of value <;> simp [Passes.isSkip]

theorem interpolate_course (entered : ∀ nodes w, ∃ visits,
      Course s depth (.document nodes) w visits (s.walk depth nodes w))
    (key : String) (escaped : Bool) (w : Walk) : ∃ visits,
    Course s depth (.node (.interpolation key escaped)) w visits
      (s.interpolate (s.walk depth) key escaped w) := by
  unfold interpolate
  rcases looked : s.lookUp w key "" with ⟨_ | ⟨value | ⟨text, scope⟩⟩, middle⟩
  · exact ⟨_, .silent looked (Or.inl rfl)⟩
  · cases value with
    | null => exact ⟨_, .silent looked (Or.inr rfl)⟩
    | _ => exact ⟨_, .value looked (by simp)⟩
  · obtain ⟨visits, last, ⟨fault, result, inner⟩ | ⟨result, inner⟩⟩ :=
      expand_course entered text .standard scope middle
    · dsimp only
      rw [result]
      exact ⟨_, .interpolationFailed looked inner⟩
    · dsimp only
      rw [result]
      exact ⟨_, .interpolated looked inner⟩

theorem showSection_course (entered : ∀ nodes w, ∃ visits,
      Course s depth (.document nodes) w visits (s.walk depth nodes w))
    (body : ∀ w, ∃ visits, Course s depth (.nodes children) w visits
      (s.visitAll (s.walk depth) children w))
    (key raw : String) (pair : Delimiters) (w : Walk) : ∃ visits,
    Course s depth (.node (.block false key children raw pair)) w visits
      (s.showSection (s.walk depth) key raw pair (s.visitAll (s.walk depth) children) w) := by
  unfold showSection
  rcases looked : s.lookUp w key raw with ⟨_ | ⟨value | ⟨text, scope⟩⟩, middle⟩
  · exact ⟨_, .skipped looked isNothing_none⟩
  · dsimp only
    cases passes : Passes.of value with
    | skip => exact ⟨_, .skipped looked (isNothing_value.mpr passes)⟩
    | once =>
      obtain ⟨visits, inner⟩ := body middle
      exact ⟨_, .once looked passes inner⟩
    | each items =>
      obtain ⟨visits, inner⟩ := passEach_course body items middle
      exact ⟨_, .each looked passes inner⟩
  · obtain ⟨visits, last, ⟨fault, result, inner⟩ | ⟨result, inner⟩⟩ :=
      expand_course entered text pair scope middle
    · dsimp only
      rw [result]
      exact ⟨_, .sectionFailed looked inner⟩
    · dsimp only
      rw [result]
      exact ⟨_, .replaced looked inner⟩

theorem showInverted_course (body : ∀ w, ∃ visits, Course s depth (.nodes children) w visits
      (s.visitAll (s.walk depth) children w))
    (key raw : String) (pair : Delimiters) (w : Walk) : ∃ visits,
    Course s depth (.node (.block true key children raw pair)) w visits
      (s.showInverted key raw (s.visitAll (s.walk depth) children) w) := by
  unfold showInverted
  rcases looked : s.lookUp w key raw with ⟨_ | ⟨value | ⟨text, scope⟩⟩, middle⟩
  · obtain ⟨visits, inner⟩ := body middle
    exact ⟨_, .inverse looked isNothing_none inner⟩
  · dsimp only
    split
    · rename_i skip
      obtain ⟨visits, inner⟩ := body middle
      exact ⟨_, .inverse looked (isNothing_value.mpr (isSkip_iff.mp skip)) inner⟩
    · rename_i shows
      refine ⟨_, .notInverse looked fun nothing => shows ?_⟩
      exact isSkip_iff.mpr (isNothing_value.mp nothing)
  · exact ⟨_, .notInverse looked not_isNothing_template⟩

theorem showPartial_course (entered : ∀ nodes w, ∃ visits,
      Course s depth (.document nodes) w visits (s.walk depth nodes w))
    (key indent : String) (w : Walk) : ∃ visits,
    Course s depth (.node (.reference key indent)) w visits
      (s.showPartial (s.walk depth) key indent w) := by
  unfold showPartial
  cases found : s.partials.get? key with
  | none => exact ⟨_, .absent found⟩
  | some nodes =>
    obtain ⟨visits, inner⟩ := entered nodes { w with indent := w.indent ++ indent }
    exact ⟨_, .referred found inner⟩

mutual
theorem visit_course (entered : ∀ nodes w, ∃ visits,
      Course s depth (.document nodes) w visits (s.walk depth nodes w)) (node : Node) (w : Walk) :
    ∃ visits, Course s depth (.node node) w visits (s.visit (s.walk depth) node w) := by
  cases node with
  | text run => exact ⟨_, .text⟩
  | interpolation key escaped => exact interpolate_course entered key escaped w
  | block inverted key children raw pair =>
    have body := visitAll_course entered children
    cases inverted with
    | false => exact showSection_course entered body key raw pair w
    | true => exact showInverted_course body key raw pair w
  | reference key indent => exact showPartial_course entered key indent w
theorem visitAll_course (entered : ∀ nodes w, ∃ visits,
      Course s depth (.document nodes) w visits (s.walk depth nodes w)) (nodes : List Node)
    (w : Walk) :
    ∃ visits, Course s depth (.nodes nodes) w visits (s.visitAll (s.walk depth) nodes w) := by
  cases nodes with
  | nil => exact ⟨[], .nil⟩
  | cons node rest =>
    obtain ⟨visits, first⟩ := visit_course entered node w
    rw [visitAll]
    rcases reached : s.visit (s.walk depth) node w with ⟨middle, _ | fault⟩
    · rw [reached] at first
      obtain ⟨more, later⟩ := visitAll_course entered rest middle
      exact ⟨_, .cons first later⟩
    · rw [reached] at first
      exact ⟨_, .stopped first⟩
end

theorem walk_course (s : Setting) (depth : Nat) (nodes : List Node) (w : Walk) :
    ∃ visits, Course s depth (.document nodes) w visits (s.walk depth nodes w) := by
  induction depth generalizing nodes w with
  | zero => exact ⟨[], .tooDeep⟩
  | succ depth ih =>
    obtain ⟨visits, inner⟩ := visitAll_course ih nodes w
    exact ⟨visits, .document inner⟩

theorem Course.unique (one : Course s depth task w visits o)
    (other : Course s depth task w visits' o') : visits = visits' ∧ o = o' := by
  have blank := @isNothing_value
  have full := @not_isNothing_template
  induction one generalizing visits' o' with
  | cons first later ih ih' =>
    cases other with
    | cons first' later' =>
      obtain ⟨rfl, same⟩ := ih first'
      cases same
      obtain ⟨rfl, rfl⟩ := ih' later'
      exact ⟨rfl, rfl⟩
    | stopped first' => cases (ih first').2
  | stopped first ih =>
    cases other with
    | cons first' later' => cases (ih first').2
    | stopped first' => exact ih first'
  | pass first later ih ih' =>
    cases other with
    | pass first' later' =>
      obtain ⟨rfl, same⟩ := ih first'
      cases same
      obtain ⟨rfl, rfl⟩ := ih' later'
      exact ⟨rfl, rfl⟩
    | passStopped first' => cases (ih first').2
  | passStopped first ih =>
    cases other with
    | pass first' later' => cases (ih first').2
    | passStopped first' =>
      obtain ⟨rfl, same⟩ := ih first'
      cases same
      exact ⟨rfl, rfl⟩
  -- The others are told apart by what the text was read as or by what the lookup led to.
  | _ => cases other <;> grind

-- What a step keeps of a walk, if its nodes are `Good`, the values that lookups lead to are `Fit`,
-- and the texts from lambdas with their scopes are `Sent`.
structure Keeps (s : Setting) (Good : Node → Prop) (Fit : Value → Prop)
    (Sent : String → List Value → Prop) (Holds : Walk → Prop) : Prop where
  inner : Good (.block inverted key children raw pair) → ∀ node ∈ children, Good node
  partials : s.partials.get? key = some nodes → ∀ node ∈ nodes, Good node
  looks : Holds w → s.lookUp w key raw = (found, middle) → Holds middle
  finds : Holds w → s.lookUp w key raw = (some (.value value), middle) → Fit value
  sends : Holds w → s.lookUp w key raw = (some (.template text scope), middle) → Sent text scope
  each : Fit value → Passes.of value = .each items → ∀ item ∈ items, Fit item
  pushes : Fit item → Holds w → Holds { w with frames := w.frames.push item }
  pops : Holds w → Holds { w with frames := w.frames.pop }
  refers : Good (.reference key indent) → Holds w → Holds { w with indent := w.indent ++ indent }
  returns : Holds w → Holds last → Holds { last with indent := w.indent }
  texts : Good (.text run) → Holds w → Holds (w.writeText run)
  shows : Good (.interpolation key escaped) → Fit value → Holds w →
    Holds (s.writeInterpolated escaped value.toText w)
  reads : Sent text scope → Holds w → s.compile text pair w.cache = (.ok d, cache) →
    ∀ node ∈ d.root, Good node
  enters : Sent text scope → Holds w → s.compile text pair w.cache = (result, cache) →
    Holds (w.inside scope cache)
  leaves : Holds w → Holds last → Holds (w.outside last)
  expands : Sent text scope → Holds w → Holds (s.writeInterpolated escaped out w)
  replaces : Sent text scope → Holds w → Holds (w.writePlain out)

end Setting

def Task.Admits (Good : Node → Prop) (Fit : Value → Prop) (Sent : String → List Value → Prop) :
    Task → Prop
  | .node one => Good one
  | .nodes row => ∀ node ∈ row, Good node
  | .passes children items => (∀ node ∈ children, Good node) ∧ ∀ item ∈ items, Fit item
  | .document row => ∀ node ∈ row, Good node
  | .expansion text _ scope => Sent text scope

namespace Setting

theorem Course.keeps (keeps : s.Keeps Good Fit Sent Holds) (course : Course s depth task w visits o)
    (admits : task.Admits Good Fit Sent) (holds : Holds w) :
    (∀ v ∈ visits, Good v.node ∧ Holds v.walk) ∧ Holds o.walk := by
  have both {P : Visit → Prop} {some more : List Visit} (one : ∀ v ∈ some, P v)
      (other : ∀ v ∈ more, P v) : ∀ v ∈ some ++ more, P v :=
    fun v member => (List.mem_append.mp member).elim (one v) (other v)
  have first {P : Visit → Prop} {v : Visit} {more : List Visit} (here : P v)
      (other : ∀ v ∈ more, P v) : ∀ u ∈ v :: more, P u := List.forall_mem_cons.mpr ⟨here, other⟩
  induction course with
  | nil => exact ⟨by simp, holds⟩
  | cons begins later ih ih' =>
    obtain ⟨here, rest⟩ := List.forall_mem_cons.mp admits
    obtain ⟨visited, reached⟩ := ih here holds
    obtain ⟨onward, ended⟩ := ih' rest reached
    exact ⟨both visited onward, ended⟩
  | stopped begins ih => exact ih (List.forall_mem_cons.mp admits).1 holds
  | noPass => exact ⟨by simp, holds⟩
  | pass begins later ih ih' =>
    obtain ⟨good, fit⟩ := admits
    obtain ⟨here, rest⟩ := List.forall_mem_cons.mp fit
    obtain ⟨visited, reached⟩ := ih good (keeps.pushes here holds)
    obtain ⟨onward, ended⟩ := ih' ⟨good, rest⟩ (keeps.pops reached)
    exact ⟨both visited onward, ended⟩
  | passStopped begins ih =>
    obtain ⟨good, fit⟩ := admits
    obtain ⟨visited, reached⟩ := ih good (keeps.pushes (List.forall_mem_cons.mp fit).1 holds)
    exact ⟨visited, keeps.pops reached⟩
  | tooDeep => exact ⟨by simp, holds⟩
  | document inner ih => exact ih admits holds
  | refused read => exact ⟨by simp, keeps.enters admits holds read⟩
  | expanded read inner ih => exact ih (keeps.reads admits holds read) (keeps.enters admits holds read)
  | text => exact ⟨first ⟨admits, holds⟩ (by simp), keeps.texts admits holds⟩
  | silent looked nothing => exact ⟨first ⟨admits, holds⟩ (by simp), keeps.looks holds looked⟩
  | value looked shown =>
    refine ⟨first ⟨admits, holds⟩ (by simp), ?_⟩
    exact keeps.shows admits (keeps.finds holds looked) (keeps.looks holds looked)
  | interpolated looked inner ih =>
    have middle := keeps.looks holds looked
    have sent := keeps.sends holds looked
    obtain ⟨visited, reached⟩ := ih sent middle
    exact ⟨first ⟨admits, holds⟩ visited, keeps.expands sent (keeps.leaves middle reached)⟩
  | interpolationFailed looked inner ih =>
    have middle := keeps.looks holds looked
    obtain ⟨visited, reached⟩ := ih (keeps.sends holds looked) middle
    exact ⟨first ⟨admits, holds⟩ visited, keeps.leaves middle reached⟩
  | skipped looked nothing => exact ⟨first ⟨admits, holds⟩ (by simp), keeps.looks holds looked⟩
  | once looked passes inner ih =>
    obtain ⟨visited, reached⟩ := ih (keeps.inner admits) (keeps.looks holds looked)
    exact ⟨first ⟨admits, holds⟩ visited, reached⟩
  | each looked passes inner ih =>
    have fit := keeps.each (keeps.finds holds looked) passes
    obtain ⟨visited, reached⟩ := ih ⟨keeps.inner admits, fit⟩ (keeps.looks holds looked)
    exact ⟨first ⟨admits, holds⟩ visited, reached⟩
  | replaced looked inner ih =>
    have middle := keeps.looks holds looked
    have sent := keeps.sends holds looked
    obtain ⟨visited, reached⟩ := ih sent middle
    exact ⟨first ⟨admits, holds⟩ visited, keeps.replaces sent (keeps.leaves middle reached)⟩
  | sectionFailed looked inner ih =>
    have middle := keeps.looks holds looked
    obtain ⟨visited, reached⟩ := ih (keeps.sends holds looked) middle
    exact ⟨first ⟨admits, holds⟩ visited, keeps.leaves middle reached⟩
  | inverse looked nothing inner ih =>
    obtain ⟨visited, reached⟩ := ih (keeps.inner admits) (keeps.looks holds looked)
    exact ⟨first ⟨admits, holds⟩ visited, reached⟩
  | notInverse looked something => exact ⟨first ⟨admits, holds⟩ (by simp), keeps.looks holds looked⟩
  | absent missing => exact ⟨first ⟨admits, holds⟩ (by simp), holds⟩
  | referred found inner ih =>
    obtain ⟨visited, reached⟩ := ih (keeps.partials found) (keeps.refers admits holds)
    exact ⟨first ⟨admits, holds⟩ visited, keeps.returns holds reached⟩

end Setting
end Mustache
