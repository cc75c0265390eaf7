import Mustache.Proofs.Course

namespace Mustache

namespace Node

mutual
def reindent (turn : String → String) : Node → Node
  | .reference key indent => .reference key (turn indent)
  | .block inverted key children raw pair =>
    .block inverted key (reindentAll turn children) raw pair
  | node => node
def reindentAll (turn : String → String) : List Node → List Node
  | [] => []
  | node :: rest => reindent turn node :: reindentAll turn rest
end

mutual
theorem reindent_id (node : Node) : node.reindent id = node := by
  cases node with
  | block inverted key children raw pair => rw [reindent, reindentAll_id children]
  | _ => rfl
theorem reindentAll_id (nodes : List Node) : reindentAll id nodes = nodes := by
  cases nodes with
  | nil => rfl
  | cons node rest => rw [reindentAll, reindent_id node, reindentAll_id rest]
end

inductive Asks : Node → String → String → Prop where
  | interpolation : Asks (.interpolation key escaped) key ""
  | block : Asks (.block inverted key children raw pair) key raw

end Node

def Task.reindent (turn : String → String) : Task → Task
  | .node one => .node (one.reindent turn)
  | .nodes row => .nodes (Node.reindentAll turn row)
  | .passes children items => .passes (Node.reindentAll turn children) items
  | .document row => .document (Node.reindentAll turn row)
  | .expansion text pair scope => .expansion text pair scope

namespace Setting
variable {s other : Setting} {turn : String → String} {Good : Node → Prop} {Fit : Value → Prop}
  {Pair : Walk → Walk → Prop}

-- Two settings in which walks go side by side, where the second walks the same nodes with other
-- indents. Their lookups lead to the same values and never to a text from a lambda, and each step
-- leads from one pair of states to the next. The nodes are `Good`, the values that lookups lead to
-- are `Fit`.
structure Lockstep (s other : Setting) (turn : String → String) (Good : Node → Prop)
    (Fit : Value → Prop) (Pair : Walk → Walk → Prop) : Prop where
  inner : Good (.block inverted key children raw pair) → ∀ node ∈ children, Good node
  partials : s.partials.get? key = some nodes → ∀ node ∈ nodes, Good node
  registry : s.partials.get? key = found →
    other.partials.get? key = found.map (Node.reindentAll turn)
  looks : Good node → node.Asks key raw → Pair w w' → s.lookUp w key raw = (found, middle) →
    ∃ middle', other.lookUp w' key raw = (found, middle') ∧ Pair middle middle'
  finds : Good node → node.Asks key raw → Pair w w' → s.lookUp w key raw = (some r, middle) →
    ∃ value, r = .value value ∧ Fit value
  each : Fit value → Passes.of value = .each items → ∀ item ∈ items, Fit item
  pushes : Fit item → Pair w w' →
    Pair { w with frames := w.frames.push item } { w' with frames := w'.frames.push item }
  pops : Pair w w' → Pair { w with frames := w.frames.pop } { w' with frames := w'.frames.pop }
  refers : Good (.reference key indent) → Pair w w' →
    Pair { w with indent := w.indent ++ indent } { w' with indent := w'.indent ++ turn indent }
  returns : Pair w w' → Pair last last' →
    Pair { last with indent := w.indent } { last' with indent := w'.indent }
  texts : Good (.text run) → Pair w w' → Pair (w.writeText run) (w'.writeText run)
  shows : Good (.interpolation key escaped) → Fit value → Pair w w' →
    Pair (s.writeInterpolated escaped value.toText w)
      (other.writeInterpolated escaped value.toText w')

def Abreast (other : Setting) (turn : String → String) (Pair : Walk → Walk → Prop) (depth : Nat)
    (task : Task) (w' : Walk) (o : Outcome) : Prop :=
  ∃ visits last, other.Course depth (task.reindent turn) w' visits ⟨last, o.fault⟩ ∧
    Pair o.walk last

theorem Course.lockstep (course : s.Course depth task w visits o)
    (steps : s.Lockstep other turn Good Fit Pair) (admits : task.Admits Good Fit fun _ _ => False)
    (paired : Pair w w') : other.Abreast turn Pair depth task w' o := by
  -- No lookup leads to a text from a lambda, and so no expansion is come to.
  have plain {node key raw w w' text scope middle} (good : Good node) (asks : node.Asks key raw)
      (paired : Pair w w') (looked : s.lookUp w key raw = (some (.template text scope), middle)) :
      False := by
    obtain ⟨value, same, -⟩ := steps.finds good asks paired looked
    cases same
  induction course generalizing w' with
  | nil => exact ⟨_, _, .nil, paired⟩
  | cons first later ih ih' =>
    obtain ⟨here, rest⟩ := List.forall_mem_cons.mp admits
    obtain ⟨_, _, first', paired⟩ := ih here paired
    obtain ⟨_, _, later', paired⟩ := ih' rest paired
    exact ⟨_, _, .cons first' later', paired⟩
  | stopped first ih =>
    obtain ⟨_, _, first', paired⟩ := ih (List.forall_mem_cons.mp admits).1 paired
    exact ⟨_, _, .stopped first', paired⟩
  | noPass => exact ⟨_, _, .noPass, paired⟩
  | pass first later ih ih' =>
    obtain ⟨good, fit⟩ := admits
    obtain ⟨here, rest⟩ := List.forall_mem_cons.mp fit
    obtain ⟨_, _, first', paired⟩ := ih good (steps.pushes here paired)
    obtain ⟨_, _, later', paired⟩ := ih' ⟨good, rest⟩ (steps.pops paired)
    exact ⟨_, _, .pass first' later', paired⟩
  | passStopped first ih =>
    obtain ⟨good, fit⟩ := admits
    obtain ⟨_, _, first', paired⟩ :=
      ih good (steps.pushes (List.forall_mem_cons.mp fit).1 paired)
    exact ⟨_, _, .passStopped first', steps.pops paired⟩
  | tooDeep => exact ⟨_, _, .tooDeep, paired⟩
  | document inner ih =>
    obtain ⟨_, _, inner', paired⟩ := ih admits paired
    exact ⟨_, _, .document inner', paired⟩
  | refused read => exact admits.elim
  | expanded read inner ih => exact admits.elim
  | text => exact ⟨_, _, .text, steps.texts admits paired⟩
  | silent looked nothing =>
    obtain ⟨_, looked', paired⟩ := steps.looks admits .interpolation paired looked
    exact ⟨_, _, .silent looked' nothing, paired⟩
  | value looked shown =>
    obtain ⟨_, looked', after⟩ := steps.looks admits .interpolation paired looked
    obtain ⟨_, ⟨⟩, fit⟩ := steps.finds admits .interpolation paired looked
    exact ⟨_, _, .value looked' shown, steps.shows admits fit after⟩
  | interpolated looked inner ih => exact (plain admits .interpolation paired looked).elim
  | interpolationFailed looked inner ih => exact (plain admits .interpolation paired looked).elim
  | skipped looked nothing =>
    obtain ⟨_, looked', paired⟩ := steps.looks admits .block paired looked
    exact ⟨_, _, .skipped looked' nothing, paired⟩
  | once looked passes inner ih =>
    obtain ⟨_, looked', paired⟩ := steps.looks admits .block paired looked
    obtain ⟨_, _, inner', paired⟩ := ih (steps.inner admits) paired
    exact ⟨_, _, .once looked' passes inner', paired⟩
  | each looked passes inner ih =>
    obtain ⟨_, looked', after⟩ := steps.looks admits .block paired looked
    obtain ⟨_, ⟨⟩, fit⟩ := steps.finds admits .block paired looked
    obtain ⟨_, _, inner', paired⟩ := ih ⟨steps.inner admits, steps.each fit passes⟩ after
    exact ⟨_, _, .each looked' passes inner', paired⟩
  | replaced looked inner ih => exact (plain admits .block paired looked).elim
  | sectionFailed looked inner ih => exact (plain admits .block paired looked).elim
  | inverse looked nothing inner ih =>
    obtain ⟨_, looked', paired⟩ := steps.looks admits .block paired looked
    obtain ⟨_, _, inner', paired⟩ := ih (steps.inner admits) paired
    exact ⟨_, _, .inverse looked' nothing inner', paired⟩
  | notInverse looked something =>
    obtain ⟨_, looked', paired⟩ := steps.looks admits .block paired looked
    exact ⟨_, _, .notInverse looked' something, paired⟩
  | absent missing => exact ⟨_, _, .absent (steps.registry missing), paired⟩
  | referred found inner ih =>
    obtain ⟨_, _, inner', after⟩ := ih (steps.partials found) (steps.refers admits paired)
    have whole := Course.referred (steps.registry found) inner'
    exact ⟨_, _, whole, steps.returns paired after⟩

theorem walk_lockstep (steps : s.Lockstep other turn Good Fit Pair)
    (good : ∀ node ∈ nodes, Good node) (paired : Pair w w') (depth : Nat) :
    Pair (s.walk depth nodes w).walk (other.walk depth (Node.reindentAll turn nodes) w').walk ∧
      (other.walk depth (Node.reindentAll turn nodes) w').fault = (s.walk depth nodes w).fault := by
  obtain ⟨visits, course⟩ := s.walk_course depth nodes w
  obtain ⟨visits', last, course', after⟩ := course.lockstep steps good paired
  obtain ⟨more, walked⟩ := other.walk_course depth (Node.reindentAll turn nodes) w'
  rw [← (course'.unique walked).2]
  exact ⟨after, rfl⟩

end Setting
end Mustache
