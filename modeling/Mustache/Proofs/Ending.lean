import Mustache.Host.Script
import Mustache.Proofs.Failure

namespace Mustache

namespace Setting
variable {s : Setting} {depth : Nat}

-- What was walked without coming too deep is walked in the same way where more documents may be
-- entered one inside the other.
theorem Course.deeper (course : s.Course depth task w visits o) (settled : o.fault ≠ some .tooDeep) :
    s.Course (depth + 1) task w visits o := by
  induction course with
  | nil => exact .nil
  | cons first later ih ih' => exact .cons (ih nofun) (ih' settled)
  | stopped first ih => exact .stopped (ih settled)
  | noPass => exact .noPass
  | pass first later ih ih' => exact .pass (ih nofun) (ih' settled)
  | passStopped first ih => exact .passStopped (ih settled)
  | tooDeep => exact absurd rfl settled
  | document inner ih => exact .document (ih settled)
  | refused read => exact .refused read
  | expanded read inner ih => exact .expanded read (ih settled)
  | text => exact .text
  | silent looked nothing => exact .silent looked nothing
  | value looked shown => exact .value looked shown
  | interpolated looked inner ih => exact .interpolated looked (ih nofun)
  | interpolationFailed looked inner ih => exact .interpolationFailed looked (ih settled)
  | skipped looked nothing => exact .skipped looked nothing
  | once looked passes inner ih => exact .once looked passes (ih settled)
  | each looked passes inner ih => exact .each looked passes (ih settled)
  | replaced looked inner ih => exact .replaced looked (ih nofun)
  | sectionFailed looked inner ih => exact .sectionFailed looked (ih settled)
  | inverse looked nothing inner ih => exact .inverse looked nothing (ih settled)
  | notInverse looked something => exact .notInverse looked something
  | absent missing => exact .absent missing
  | referred found inner ih => exact .referred found (ih settled)

theorem walk_deeper (settled : (s.walk depth nodes w).fault ≠ some .tooDeep) (deeper : depth ≤ bound) :
    s.walk bound nodes w = s.walk depth nodes w := by
  have course : ∃ visits, s.Course bound (.document nodes) w visits (s.walk depth nodes w) := by
    induction deeper with
    | refl => exact s.walk_course depth nodes w
    | step _ ih =>
      obtain ⟨visits, course⟩ := ih
      exact ⟨visits, course.deeper settled⟩
  obtain ⟨visits, course⟩ := course
  obtain ⟨visits', walked⟩ := s.walk_course bound nodes w
  exact (walked.unique course).2

theorem walk_faultless (acyclic : Acyclic s.partials nodes) (lambdaless : Value.Lambdaless s.host data)
    (inside : w.frames.Inside s.host data) (deep : s.partials.length < depth) :
    (s.walk depth nodes w).fault = none := by
  obtain ⟨visits, course⟩ := s.walk_course depth nodes w
  have plain := course.plain lambdaless inside
  cases failed : (s.walk depth nodes w).fault with
  | none => rfl
  | some fault =>
    cases fault with
    | parse cause =>
      obtain ⟨v, member, text, own, sends, -⟩ := (course.parse_fault failed).resolve_right id
      exact absurd sends (plain v member text _ own)
    | tooDeep =>
      obtain ⟨keys, trail, long⟩ := course.trail plain nofun failed
      have short := trail.length_le acyclic
      rw [long] at short
      exact absurd deep (Nat.not_lt.mpr short)

-- Where partials do not lead round in a circle, a walk over data without lambdas ends, and it ends
-- without a fault. It enters no more documents one inside the other than there are partials, and the
-- one that it begins with, so that no depth above makes a difference. A render so gives a text.
theorem walk_ends (s : Setting) {nodes : List Node} {data : Value}
    (acyclic : Acyclic s.partials nodes) (lambdaless : data.Lambdaless s.host) :
    (∀ w : Walk, w.frames.Inside s.host data → ∃ last : Walk, ∀ depth,
      s.partials.length < depth → s.walk depth nodes w = last.done) ∧
    ∀ journal, ∃ text after, ∀ depth, s.partials.length < depth →
      Template.resultOf (s.walk depth nodes (.start data journal)) = (.ok text, after) := by
  have ends (w : Walk) (inside : w.frames.Inside s.host data) : ∃ last : Walk, ∀ depth,
      s.partials.length < depth → s.walk depth nodes w = last.done := by
    have first := walk_faultless acyclic lambdaless inside (Nat.lt_succ_self _)
    refine ⟨(s.walk (s.partials.length + 1) nodes w).walk, fun depth deep => ?_⟩
    rw [walk_deeper (by rw [first]; nofun) deep, Walk.done, ← first]
  refine ⟨ends, fun journal => ?_⟩
  obtain ⟨last, ended⟩ := ends (.start data journal) .ofRoot
  exact ⟨last.out, last.journal, fun depth deep => by rw [ended depth deep]; rfl⟩

end Setting

-- Two partials of which the one leads to the other in two ways, beside two that lead to each other.
-- The data is a list with a record.
namespace Ending

def shown : List Node :=
  [.block false "l" [.reference "p" " ", .interpolation "n" true] "" .standard]

def setting : Setting where
  host := .ofScripts #[] #[⟨[("n", .number (.int 7))], false⟩]
  partials := [
    ("p", [.reference "q" "", .block true "none" [.reference "q" "-"] "" .standard]),
    ("q", [.interpolation "n" true, .reference "missing" ""]),
    ("r", [.reference "t" ""]),
    ("t", [.reference "r" ""])]
  options := .standard
  reuses := true

def data : Value := .map [("l", .list [.record ⟨0, "r"⟩])]

def asked : Journal :=
  [.consulted 0 "n", .consulted 0 "n", .consulted 0 "none", .consulted 0 "n"]

def rank (name : String) : Nat := if name = "p" then 2 else if name = "q" then 1 else 0

theorem acyclic : Acyclic setting.partials shown := by
  refine .of_rank rank (fun name => name ∈ ["p", "q", "missing"]) (by decide +kernel) ?_
  rintro key other live ⟨nodes, found, member⟩
  have inner : ∀ name ∈ ["p", "q", "missing"], ∀ nodes ∈ setting.partials.get? name,
      ∀ next ∈ Node.targets nodes, next ∈ ["p", "q", "missing"] ∧ rank next < rank name := by
    decide +kernel
  exact inner key live nodes found other member

theorem lambdaless : data.Lambdaless setting.host := by
  have parts : ∀ value, Value.Within setting.host data value → value = data ∨
      value = .list [.record ⟨0, "r"⟩] ∨ value = .record ⟨0, "r"⟩ ∨ value = .number (.int 7) := by
    intro value within
    induction within with
    | self => exact Or.inl rfl
    | item whole member ih =>
      rcases ih with same | same | same | same
      · cases same
      · cases same
        exact Or.inr (Or.inr (Or.inl (List.mem_singleton.mp member)))
      · cases same
      · cases same
    | entry whole member ih =>
      rcases ih with same | same | same | same
      · cases same
        exact Or.inr (Or.inl (congrArg Prod.snd (List.mem_singleton.mp member)))
      all_goals cases same
    | @field r key value whole member ih =>
      rcases ih with same | same | same | same
      · cases same
      · cases same
      · cases same
        have asked : Entries.get? key [("n", Value.number (.int 7))] = some value := by
          revert member
          change RecordScript.member? ⟨[("n", .number (.int 7))], false⟩ key = some value → _
          unfold RecordScript.member?
          split
          · simp_all
          · simp
        have only := Entries.mem_of_get asked
        exact Or.inr (Or.inr (Or.inr (congrArg Prod.snd (List.mem_singleton.mp only))))
      · cases same
  intro value within lambda same
  subst same
  rcases parts _ within with same | same | same | same <;> cases same

end Ending

open Ending in
theorem Setting.walk_ends_record :
    Acyclic setting.partials shown ∧ ¬ Acyclic setting.partials [.reference "r" ""] ∧
    data.Lambdaless setting.host ∧ (Walk.start data []).frames.Inside setting.host data ∧
    (∃ last : Walk, ∀ depth, 4 < depth → setting.walk depth shown (.start data []) = last.done) ∧
    ∀ depth, 4 < depth →
      Template.resultOf (setting.walk depth shown (.start data [])) = (.ok " 7 -77", asked) := by
  obtain ⟨ends, gives⟩ := setting.walk_ends acyclic lambdaless
  refine ⟨acyclic, fun other => ?_, lambdaless, .ofRoot, ends _ .ofRoot, ?_⟩
  · have leads : Leads setting.partials "r" "t" := ⟨[.reference "t" ""], by decide +kernel⟩
    have back : Leads setting.partials "t" "r" := ⟨[.reference "r" ""], by decide +kernel⟩
    exact other "r" ⟨"r", by decide +kernel, .refl⟩ (.tail (.single leads) back)
  · obtain ⟨text, after, same⟩ := gives []
    have five : Template.resultOf (setting.walk 5 shown (.start data [])) = (.ok " 7 -77", asked) := by
      decide +kernel
    rw [same 5 (by decide)] at five
    cases five
    exact same

end Mustache
