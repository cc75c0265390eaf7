import Mustache.Proofs.Effect
import Mustache.Proofs.Ending

namespace Mustache

-- One reference without indent, inside any number of blocks, gives way to the nodes of its partial, or
-- to nothing where there is no such partial.
inductive Inlined (partials : Entries (List Node)) : List Node → List Node → Prop where
  | here : Inlined partials (.reference key "" :: rest) ((partials.get? key).getD [] ++ rest)
  | inside (deep : Inlined partials children children') :
      Inlined partials (.block inverted key children raw pair :: rest)
        (.block inverted key children' raw pair :: rest)
  | later (other : Inlined partials nodes nodes') : Inlined partials (node :: nodes) (node :: nodes')

def Follows (one other : Walk → Outcome) : Prop :=
  ∀ w, (one w).fault ≠ some .tooDeep → other w = one w

namespace Follows

theorem andThen (first : Follows one other) (later : Follows next next') :
    Follows (fun w => (one w).andThen next) fun w => (other w).andThen next' := by
  intro w settled
  dsimp only at settled ⊢
  rcases reached : one w with ⟨middle, _ | fault⟩ <;> rw [reached] at settled
  · rw [first w (by simp [reached]), reached]
    exact later middle settled
  · rw [first w (by rw [reached]; exact settled), reached]
    rfl

theorem passEach (body : Follows one other) (items : List Value) :
    Follows (Setting.passEach one items) (Setting.passEach other items) := by
  induction items with
  | nil => exact fun _ _ => rfl
  | cons item items ih =>
    -- A pass with a fault is the last one, so that the whole has its fault.
    intro w settled
    unfold Setting.passEach at settled ⊢
    dsimp only at settled ⊢
    rcases reached : one { w with frames := w.frames.push item } with ⟨middle, _ | fault⟩ <;>
      rw [reached] at settled
    · rw [body _ (by simp [reached]), reached]
      exact ih _ settled
    · rw [body _ (by rw [reached]; exact settled), reached]

end Follows

namespace Setting
variable {s : Setting} {depth bound : Nat}

theorem visitAll_cons (s : Setting) (enter : List Node → Walk → Outcome) (node : Node)
    (rest : List Node) (w : Walk) : s.visitAll enter (node :: rest) w =
      (s.visit enter node w).andThen (s.visitAll enter rest) := by
  rw [visitAll]
  rcases s.visit enter node w with ⟨middle, _ | fault⟩ <;> rfl

theorem visitAll_single (s : Setting) (enter : List Node → Walk → Outcome) (node : Node) (w : Walk) :
    s.visitAll enter [node] w = s.visit enter node w := by
  rw [visitAll_cons]
  rcases s.visit enter node w with ⟨middle, _ | fault⟩ <;> rfl

theorem follows_cons (first : Follows (s.visit enter node) (s.visit enter' node'))
    (later : Follows (s.visitAll enter rest) (s.visitAll enter' rest')) :
    Follows (s.visitAll enter (node :: rest)) (s.visitAll enter' (node' :: rest')) := by
  intro w
  rw [visitAll_cons, visitAll_cons]
  exact first.andThen later w

theorem follows_nodes (deeper : depth ≤ bound) (nodes : List Node) :
    Follows (s.visitAll (s.walk depth) nodes) (s.visitAll (s.walk bound) nodes) := by
  intro w settled
  have walked : (s.walk (depth + 1) nodes w).fault ≠ some .tooDeep := settled
  exact walk_deeper walked (Nat.succ_le_succ deeper)

theorem follows_node (deeper : depth ≤ bound) (node : Node) :
    Follows (s.visit (s.walk depth) node) (s.visit (s.walk bound) node) := by
  intro w
  rw [← visitAll_single, ← visitAll_single]
  exact follows_nodes deeper [node] w

theorem expand_deeper (deeper : depth ≤ bound)
    (settled : (s.expand (s.walk depth) text pair scope w).1 ≠ .error .tooDeep) :
    s.expand (s.walk bound) text pair scope w = s.expand (s.walk depth) text pair scope w := by
  revert settled
  unfold expand
  rcases s.compile text pair w.cache with ⟨_ | d, cache⟩
  · exact fun _ => rfl
  · intro settled
    dsimp only at settled ⊢
    rw [walk_deeper _ deeper]
    intro fault
    rw [fault] at settled
    exact settled rfl

theorem follows_block (deeper : depth ≤ bound)
    (body : Follows (s.visitAll (s.walk depth) children) (s.visitAll (s.walk bound) children'))
    (inverted : Bool) (key raw : String) (pair : Delimiters) :
    Follows (s.visit (s.walk depth) (.block inverted key children raw pair))
      (s.visit (s.walk bound) (.block inverted key children' raw pair)) := by
  intro w
  rw [visit, visit]
  cases inverted with
  | true =>
    rw [if_pos rfl, if_pos rfl, showInverted, showInverted]
    rcases s.lookUp w key raw with ⟨_ | ⟨value | ⟨text, scope⟩⟩, middle⟩ <;> dsimp only
    · exact body middle
    · split
      · exact body middle
      · exact fun _ => rfl
    · exact fun _ => rfl
  | false =>
    rw [if_neg Bool.false_ne_true, if_neg Bool.false_ne_true, showSection, showSection]
    rcases s.lookUp w key raw with ⟨_ | ⟨value | ⟨text, scope⟩⟩, middle⟩ <;> dsimp only
    · exact fun _ => rfl
    · cases Passes.of value with
      | skip => exact fun _ => rfl
      | once => exact body middle
      | each items => exact body.passEach items middle
    · rcases expanded : s.expand (s.walk depth) text pair scope middle with ⟨fault | shown, later⟩
      · intro settled
        rw [expand_deeper deeper, expanded]
        rw [expanded]
        rintro ⟨⟩
        exact settled rfl
      · intro
        rw [expand_deeper deeper (by simp [expanded]), expanded]

theorem visit_reference (s : Setting) (depth : Nat) (key : String) (w : Walk) :
    s.visit (s.walk depth) (.reference key "") w =
      match s.partials.get? key with
      | none => w.done
      | some nodes => s.walk depth nodes w := by
  rw [visit, showPartial]
  cases s.partials.get? key with
  | none => rfl
  | some nodes =>
    obtain ⟨_, course⟩ := s.walk_course depth nodes w
    have same : (s.walk depth nodes w).walk.indent = w.indent := course.place.2
    have plain : { w with indent := w.indent ++ "" } = w := by rw [String.append_empty]
    dsimp only
    rw [plain, ← same]

theorem follows_reference (s : Setting) (depth : Nat) (key : String) :
    Follows (s.visit (s.walk depth) (.reference key ""))
      (s.visitAll (s.walk depth) ((s.partials.get? key).getD [])) := by
  intro w
  rw [visit_reference]
  cases s.partials.get? key with
  | none => exact fun _ => rfl
  | some nodes => exact fun settled => walk_deeper settled depth.le_succ

theorem reference_follows (s : Setting) (depth : Nat) (key : String) :
    Follows (s.visitAll (s.walk depth) ((s.partials.get? key).getD []))
      (s.visit (s.walk (depth + 1)) (.reference key "")) := by
  intro w settled
  rw [visit_reference]
  cases s.partials.get? key with
  | none => rfl
  | some nodes => rfl

-- The induction leads down to the reference that gives way. On the way there blocks and what stands
-- behind them are the same on both sides.
theorem follows_inlined (inlined : Inlined s.partials nodes nodes') :
    Follows (s.visitAll (s.walk depth) nodes) (s.visitAll (s.walk depth) nodes') := by
  induction inlined with
  | @here key rest =>
    intro w
    rw [visitAll_cons, visitAll_append]
    exact (s.follows_reference depth key).andThen (follows_nodes depth.le_refl rest) w
  | inside deep ih => exact follows_cons (follows_block depth.le_refl ih _ _ _ _) (follows_nodes depth.le_refl _)
  | later other ih => exact follows_cons (follows_node depth.le_refl _) ih

-- The reference takes one document more than its nodes, and all that stands around it may do so too.
theorem inlined_follows (inlined : Inlined s.partials nodes nodes') :
    Follows (s.visitAll (s.walk depth) nodes') (s.visitAll (s.walk (depth + 1)) nodes) := by
  induction inlined with
  | @here key rest =>
    intro w
    rw [visitAll_cons, visitAll_append]
    exact (s.reference_follows depth key).andThen (follows_nodes depth.le_succ rest) w
  | inside deep ih =>
    exact follows_cons (follows_block depth.le_succ ih _ _ _ _) (follows_nodes depth.le_succ _)
  | later other ih => exact follows_cons (follows_node depth.le_succ _) ih

theorem fault_of_result (result : Template.resultOf o = (answer, after))
    (settled : answer ≠ .error .tooDeep) : o.fault ≠ some .tooDeep := by
  intro fault
  rw [Template.resultOf, fault] at result
  cases result
  exact settled rfl

-- A reference without indent may give way to the nodes of its partial, wherever it stands, and however
-- often this comes back to the same partial. A walk that does not come too deep comes to the same end in
-- the same state, with the same events behind it. It needs at most one document less inside another, so
-- that the renders of both have the same results.
theorem walk_inlined (s : Setting) (inlined : Inlined s.partials nodes nodes') :
    (∀ depth w, (s.walk depth nodes w).fault ≠ some .tooDeep →
      s.walk depth nodes' w = s.walk depth nodes w) ∧
    (∀ depth w, (s.walk depth nodes' w).fault ≠ some .tooDeep →
      s.walk (depth + 1) nodes w = s.walk depth nodes' w) ∧
    ∀ data journal answer after, answer ≠ .error .tooDeep →
      ((∃ depth, Template.resultOf (s.walk depth nodes (.start data journal)) = (answer, after)) ↔
        ∃ depth, Template.resultOf (s.walk depth nodes' (.start data journal)) = (answer, after)) := by
  have forth (depth : Nat) : Follows (s.walk depth nodes) (s.walk depth nodes') := by
    cases depth with
    | zero => exact fun w settled => absurd rfl settled
    | succ depth => exact follows_inlined inlined
  have back (depth : Nat) : Follows (s.walk depth nodes') (s.walk (depth + 1) nodes) := by
    cases depth with
    | zero => exact fun w settled => absurd rfl settled
    | succ depth => exact inlined_follows inlined
  refine ⟨forth, back, fun data journal answer after settled => ⟨?_, ?_⟩⟩
  · rintro ⟨depth, result⟩
    exact ⟨depth, by rw [forth depth _ (fault_of_result result settled), result]⟩
  · rintro ⟨depth, result⟩
    exact ⟨depth + 1, by rw [back depth _ (fault_of_result result settled), result]⟩

end Setting

namespace Spiral

def spiral : List Node :=
  [.interpolation "n" true, .block false "l" [.text "(", .reference "p" "", .text ")"] "" .standard]

def setting : Setting where
  host := .ofScripts #[.callCount] #[]
  partials := [("p", spiral)]
  options := .standard
  reuses := true

def count : Lambda := ⟨0, false⟩

def bottom : Value := .map [("l", .null)]

def data : Value :=
  .map [("l", .list [.map [("l", .list [bottom])], bottom]), ("n", .lambda count)]

def root : List Node := [.block false "l" [.reference "p" "", .text ";"] "" .standard]

def unrolled : List Node := [.block false "l" (spiral ++ [.text ";"]) "" .standard]

def calls : Journal := [.called count "", .called count "", .called count ""]

theorem inlined : Inlined setting.partials root unrolled := by
  have here : Inlined setting.partials (.reference "p" "" :: [.text ";"])
      ((setting.partials.get? "p").getD [] ++ [.text ";"]) := .here
  exact .inside here

end Spiral

open Spiral in
theorem Setting.walk_inlined_spiral :
    Inlined setting.partials root unrolled ∧
    Template.resultOf (setting.walk 3 root (.start data [])) = (.ok "1(2);3;", calls) ∧
    setting.walk 3 unrolled (.start data []) = setting.walk 3 root (.start data []) ∧
    (setting.walk 2 root (.start data [])).fault = some .tooDeep ∧
    setting.walk 2 unrolled (.start data []) = setting.walk 3 root (.start data []) := by
  obtain ⟨forth, back, -⟩ := setting.walk_inlined inlined
  have written : Template.resultOf (setting.walk 3 root (.start data [])) = (.ok "1(2);3;", calls) := by
    decide +kernel
  have other : Template.resultOf (setting.walk 2 unrolled (.start data [])) =
      (.ok "1(2);3;", calls) := by decide +kernel
  have early : (setting.walk 2 root (.start data [])).fault = some .tooDeep := by decide +kernel
  have first := forth 3 _ (fault_of_result written nofun)
  have second := back 2 _ (fault_of_result other nofun)
  exact ⟨inlined, written, first, early, second.symm⟩

end Mustache
