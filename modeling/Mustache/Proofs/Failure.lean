import Mustache.Proofs.Trail
import Mustache.Template

namespace Mustache
open Text

theorem Scan.fault_of_itemsFrom (done : List Item) (s : Scan)
    (member : .error fault ∈ s.itemsFrom done) :
    .error fault ∈ done ∨ ∃ offset, fault = .unclosedTag offset := by
  rw [itemsFrom] at member
  split at member
  · exact Or.inl (List.mem_reverse.mp member)
  · exact Or.inl (by simpa using member)
  · rcases List.mem_cons.mp (List.mem_reverse.mp member) with same | member
    · cases same
      exact Or.inr ⟨_, rfl⟩
    · exact Or.inl member
  · rename_i text tag next tagged
    have handed (yields : .error fault ∈ (yielded text tag).reverse ++ done) : .error fault ∈ done := by
      rcases List.mem_append.mp yields with yields | yields
      · obtain ⟨own, same⟩ := Clean.yielded text tag _ (List.mem_reverse.mp yields)
        cases same
      · exact yields
    dsimp only at member
    split at member
    · exact (fault_of_itemsFrom _ next member).imp_left handed
    · exact Or.inl (handed (List.mem_reverse.mp member))
termination_by s.rest.length
decreasing_by exact round_shorter ‹_› ‹_›

theorem Document.fault_of_usable (usable : pair.isUsable = true)
    (failed : parseWith pair source = .error cause) : cause ≠ .unusableDelimiters := by
  unfold parseWith at failed
  rw [Scan.start_eq_ok_iff.mpr ⟨usable, rfl⟩] at failed
  rcases fault_of_items failed with member | other
  · rcases Scan.fault_of_itemsFrom [] _ member with none | ⟨offset, rfl⟩
    · cases none
    · nofun
  · exact other.1

def Node.Usable : Node → Prop
  | .block _ _ _ _ pair => pair.isUsable = true
  | _ => True

theorem Document.usable_parts (parsed : parseWith pair source = .ok d) :
    ∀ part ∈ d.parts, part.Usable := by
  intro part member
  cases part with
  | block inverted key children raw own => exact usable_of_parsed parsed member
  | _ => trivial

-- The lookup at a visited node led to a text from a lambda, which is read under a pair: under the
-- standard one at an interpolation, and at a section under the one that the section records. The
-- last question to the host was the call that answered with this text.
inductive Visit.Sends (s : Setting) (text : String) (after : Journal) : Visit → Delimiters → Prop where
  | interpolation (looked : s.lookUp w key "" = (some (.template text scope), middle))
      (answers : s.host.Answers "" text w.journal after) :
      Sends s text after ⟨.interpolation key escaped, w⟩ .standard
  | block (looked : s.lookUp w key raw = (some (.template text scope), middle))
      (answers : s.host.Answers raw text w.journal after) :
      Sends s text after ⟨.block false key children raw pair, w⟩ pair

namespace Setting
variable {s : Setting} {depth : Nat}

theorem lookUp_answers (looked : s.lookUp w key raw = (some (.template text scope), middle)) :
    s.host.Answers raw text w.journal middle.journal :=
  Host.resolve_template (lookUp_journal looked).1

theorem compile_error (failed : s.compile text pair cache = (.error cause, later)) :
    Document.parseWith pair text = .error cause ∧ later = cache := by
  unfold compile at failed
  split at failed
  · cases failed
  · split at failed
    · rename_i found
      cases failed
      exact ⟨found, rfl⟩
    · cases failed

end Setting

def Task.Unread (cause : ParseError) (before after : Journal) : Task → Prop
  | .expansion body pair _ => Document.parseWith pair body = .error cause ∧ after = before
  | _ => False

namespace Setting
variable {s : Setting} {depth : Nat}

theorem Course.parse_fault (course : Course s depth task w visits o)
    (failed : o.fault = some (.parse cause)) :
    (∃ v ∈ visits, ∃ text pair, v.Sends s text o.walk.journal pair ∧
      Document.parseWith pair text = .error cause) ∨
    task.Unread cause w.journal o.walk.journal := by
  have wider {P : Visit → Prop} {visits more : List Visit} (sub : visits ⊆ more)
      (inner : (∃ v ∈ visits, P v) ∨ False) : (∃ v ∈ more, P v) ∨ False :=
    inner.imp_left fun ⟨v, member, here⟩ => ⟨v, sub member, here⟩
  induction course with
  | cons begins later ih ih' => exact wider (List.subset_append_right _ _) (ih' failed)
  | stopped begins ih => exact ih failed
  | pass begins later ih ih' => exact wider (List.subset_append_right _ _) (ih' failed)
  | passStopped begins ih => exact ih failed
  | document inner ih => exact ih failed
  | refused read =>
    cases failed
    exact Or.inr ⟨(compile_error read).1, rfl⟩
  | expanded read inner ih => exact (ih failed).imp_right False.elim
  | interpolationFailed looked inner ih =>
    rcases ih failed with ⟨v, member, sends⟩ | ⟨unread, journal⟩
    · exact Or.inl ⟨v, List.mem_cons_of_mem _ member, sends⟩
    · have answers := lookUp_answers looked
      rw [← journal] at answers
      exact Or.inl ⟨_, List.mem_cons_self, _, .standard, .interpolation looked answers, unread⟩
  | sectionFailed looked inner ih =>
    rcases ih failed with ⟨v, member, sends⟩ | ⟨unread, journal⟩
    · exact Or.inl ⟨v, List.mem_cons_of_mem _ member, sends⟩
    · have answers := lookUp_answers looked
      rw [← journal] at answers
      exact Or.inl ⟨_, List.mem_cons_self, _, _, .block looked answers, unread⟩
  | once looked passes inner ih => exact wider (List.subset_cons_self _ _) (ih failed)
  | each looked passes inner ih => exact wider (List.subset_cons_self _ _) (ih failed)
  | inverse looked nothing inner ih => exact wider (List.subset_cons_self _ _) (ih failed)
  | referred found inner ih => exact wider (List.subset_cons_self _ _) (ih failed)
  | _ => cases failed

theorem compile_sound (sound : Cache.Sound cache)
    (compiled : s.compile text pair cache = (result, later)) :
    Cache.Sound later ∧ result = Document.parseWith pair text := by
  cases parsed : Document.parseWith pair text with
  | ok d =>
    have same := compile_eq s sound parsed
    rw [compiled] at same
    exact ⟨same.2, same.1⟩
  | error cause =>
    cases result with
    | error own =>
      obtain ⟨unread, rfl⟩ := compile_error compiled
      exact ⟨sound, unread.symm.trans parsed⟩
    | ok d =>
      unfold compile at compiled
      split at compiled
      · rename_i document hit
        split at hit
        · rw [find_sound sound hit] at parsed
          cases parsed
        · cases hit
      · rw [parsed] at compiled
        cases compiled

-- A walk comes to no section but those with usable pairs, since all documents were read from texts.
-- It only adds to what was asked of the host.
theorem keeps_usable (journal : Journal) (defined : ∀ key nodes, s.partials.get? key = some nodes →
      ∀ node ∈ nodes, node.All Node.Usable) :
    s.Keeps (Node.All Node.Usable) (fun _ => True) (fun _ _ => True)
      (fun w => Cache.Sound w.cache ∧ journal <:+ w.journal) where
  inner usable := usable.inner
  partials found := defined _ _ found
  looks := by
    rintro w key raw found middle ⟨sound, grown⟩ looked
    obtain ⟨asked, same⟩ := lookUp_journal looked
    have further := s.host.resolve_grows w.frames key raw w.journal
    rw [asked] at further
    rw [same]
    exact ⟨sound, grown.trans further⟩
  finds _ _ := trivial
  sends _ _ := trivial
  each _ _ _ _ := trivial
  pushes _ holds := holds
  pops holds := holds
  refers _ holds := holds
  returns _ holds := holds
  texts _ holds := holds
  shows _ _ holds := holds
  reads _ holds compiled :=
    Document.all_root (Document.usable_parts (compile_sound holds.1 compiled).2.symm)
  enters _ holds compiled := ⟨(compile_sound holds.1 compiled).1, holds.2⟩
  leaves _ inner := inner
  expands _ holds := holds
  replaces _ holds := holds

theorem Course.plain (course : Course s depth (.document nodes) w visits o)
    (lambdaless : Value.Lambdaless s.host data) (inside : w.frames.Inside s.host data) :
    ∀ v ∈ visits, ∀ text after pair, ¬ v.Sends s text after pair := by
  intro v member text after pair sends
  have here := ((course.keeps (keeps_inside lambdaless) (fun _ _ => trivial) inside).1 v member).2
  cases sends with
  | interpolation looked answers | block looked answers =>
    obtain ⟨value, same, -⟩ := lookUp_inside lambdaless here looked
    cases same

end Setting

def Task.row : Task → List Node
  | .node one => [one]
  | .nodes row | .passes row _ | .document row => row
  | .expansion .. => []

-- How many partials lie one inside the other where the task comes too deep.
def Task.room (depth : Nat) : Task → Nat
  | .document _ => depth
  | _ => depth + 1

def Node.Below (rank : String → Nat) (bound : Nat) (node : Node) : Prop :=
  node.All fun part => ∀ name indent, part = .reference name indent → rank name < bound

theorem Node.targets_below (below : ∀ node ∈ nodes, node.Below rank bound) :
    ∀ key ∈ targets nodes, rank key < bound := by
  intro key member
  obtain ⟨indent, inside⟩ := mem_targets.mp member
  obtain ⟨top, known, part⟩ := mem_partsAll.mp inside
  exact below top known _ part key indent rfl

-- Partials refer to such of lower rank only, so that none leads back to itself.
def Ranked (partials : Entries (List Node)) (rank : String → Nat) : Prop :=
  ∀ key nodes, partials.get? key = some nodes → ∀ node ∈ nodes, node.Below rank (rank key)

theorem Ranked.falls (ranked : Ranked partials rank) (leads : Leads partials key other) :
    rank other < rank key := by
  obtain ⟨nodes, found, member⟩ := leads
  exact Node.targets_below (ranked key nodes found) other member

def Task.Below (rank : String → Nat) (depth : Nat) : Task → Prop
  | .node one => one.Below rank depth
  | .nodes row | .passes row _ => ∀ node ∈ row, node.Below rank depth
  | .document row => ∃ bound, depth = bound + 1 ∧ ∀ node ∈ row, node.Below rank bound
  | .expansion .. => True

namespace Setting
variable {s : Setting} {depth : Nat}

-- A walk without texts from lambdas comes too deep only inside as many partials as it may enter.
theorem Course.trail (course : Course s depth task w visits o)
    (plain : ∀ v ∈ visits, ∀ text after pair, ¬ v.Sends s text after pair)
    (settled : ∀ text pair scope, task ≠ .expansion text pair scope)
    (deep : o.fault = some .tooDeep) :
    ∃ keys, Trail s.partials task.row keys ∧ keys.length = task.room depth := by
  induction course with
  | cons begins later ih ih' =>
    obtain ⟨keys, trail, long⟩ :=
      ih' (fun v member => plain v (List.mem_append_right _ member)) nofun deep
    exact ⟨keys, trail.wider (Node.targets_subset_cons _ _), long⟩
  | stopped begins ih =>
    obtain ⟨keys, trail, long⟩ := ih plain nofun deep
    exact ⟨keys, trail.wider (Node.targets_subset_of_mem List.mem_cons_self), long⟩
  | pass begins later ih ih' =>
    exact ih' (fun v member => plain v (List.mem_append_right _ member)) nofun deep
  | passStopped begins ih => exact ih plain nofun deep
  | tooDeep => exact ⟨[], .here, rfl⟩
  | document inner ih => exact ih plain nofun deep
  | refused read => exact absurd rfl (settled _ _ _)
  | expanded read inner ih => exact absurd rfl (settled _ _ _)
  | interpolationFailed looked inner ih =>
    exact absurd (.interpolation looked (lookUp_answers looked)) (plain _ List.mem_cons_self _ _ _)
  | sectionFailed looked inner ih =>
    exact absurd (.block looked (lookUp_answers looked)) (plain _ List.mem_cons_self _ _ _)
  | once looked passes inner ih | each looked passes inner ih | inverse looked nothing inner ih =>
    obtain ⟨keys, trail, long⟩ := ih (fun v member => plain v (List.mem_cons_of_mem _ member)) nofun deep
    exact ⟨keys, trail.wider (Node.targets_subset_block _ _ _ _ _), long⟩
  | referred found inner ih =>
    obtain ⟨keys, trail, long⟩ := ih (fun v member => plain v (List.mem_cons_of_mem _ member)) nofun deep
    exact ⟨_ :: keys, .along (Node.mem_targets_reference _ _) found trail, congrArg (· + 1) long⟩
  | _ => cases deep

theorem Course.not_tooDeep (course : Course s depth task w visits o)
    (ranked : Ranked s.partials rank)
    (plain : ∀ v ∈ visits, ∀ text after pair, ¬ v.Sends s text after pair)
    (settled : ∀ text pair scope, task ≠ .expansion text pair scope) (below : task.Below rank depth) :
    o.fault ≠ some .tooDeep := by
  intro deep
  obtain ⟨keys, trail, long⟩ := course.trail plain settled deep
  have short {bound : Nat} (lower : ∀ node ∈ task.row, node.Below rank bound) :
      task.room depth ≤ bound :=
    long ▸ trail.length_le_rank (fun _ _ => ranked.falls) (Node.targets_below lower)
  cases task with
  | node one => exact Nat.not_succ_le_self _ (short (List.forall_mem_singleton.mpr below))
  | nodes row | passes row items => exact Nat.not_succ_le_self _ (short below)
  | document row =>
    obtain ⟨bound, rfl, below⟩ := below
    exact Nat.not_succ_le_self _ (short below)
  | expansion => exact settled _ _ _ rfl

end Setting

namespace Template

theorem readAll_error (failed : readAll supplied = .error cause) :
    ∃ entry ∈ supplied, Document.parse entry.2 = .error cause := by
  induction supplied with
  | nil => cases failed
  | cons entry rest ih =>
    obtain ⟨name, source⟩ := entry
    unfold readAll at failed
    split at failed
    · rename_i found
      cases failed
      exact ⟨_, List.mem_cons_self, found⟩
    · split at failed
      · rename_i found
        cases failed
        obtain ⟨entry, member, unread⟩ := ih found
        exact ⟨entry, List.mem_cons_of_mem _ member, unread⟩
      · cases failed

theorem readAll_cons (done : readAll (entry :: rest) = .ok documents) : ∃ d others,
    Document.parse entry.2 = .ok d ∧ readAll rest = .ok others ∧ documents = (entry.1, d) :: others := by
  obtain ⟨name, source⟩ := entry
  unfold readAll at done
  split at done
  · cases done
  · rename_i d parsed
    split at done
    · cases done
    · rename_i others found
      cases done
      exact ⟨d, others, parsed, found, rfl⟩

theorem readAll_ok (done : readAll supplied = .ok documents) :
    ∀ entry ∈ documents, ∃ text, (entry.1, text) ∈ supplied ∧ Document.parse text = .ok entry.2 := by
  induction supplied generalizing documents with
  | nil =>
    cases done
    simp
  | cons entry rest ih =>
    obtain ⟨d, others, parsed, found, rfl⟩ := readAll_cons done
    refine List.forall_mem_cons.mpr ⟨⟨entry.2, List.mem_cons_self, parsed⟩, fun entry member => ?_⟩
    obtain ⟨text, known, parsed⟩ := ih found entry member
    exact ⟨text, List.mem_cons_of_mem _ known, parsed⟩

theorem mem_overlay {partials : Entries (List Node)} (member : (key, nodes) ∈ overlay partials documents) :
    (key, nodes) ∈ partials ∨ ∃ entry ∈ documents, entry.2.root = nodes := by
  induction documents generalizing partials with
  | nil => exact Or.inl member
  | cons entry rest ih =>
    rcases ih member with known | ⟨own, found, same⟩
    · rcases Entries.mem_insert _ _ known with same | known
      · cases same
        exact Or.inr ⟨entry, List.mem_cons_self, rfl⟩
      · exact Or.inl known
    · exact Or.inr ⟨own, List.mem_cons_of_mem _ found, same⟩

def settingOf (t : Template) (host : Host) (documents : List (String × Document)) : Setting :=
  ⟨host, overlay t.document.partials documents, t.options, true⟩

theorem renderWith_walk (t : Template) (host : Host) (depth : Nat)
    (read : readAll supplied = .ok documents) (data : Value) (journal : Journal) :
    t.renderWith host depth supplied data journal =
      resultOf ((t.settingOf host documents).walk depth t.document.root (.start data journal)) := by
  rw [renderWith, read]
  rfl

theorem all_partials {t : Template} (own : ∀ part ∈ t.document.parts, P part)
    (given : ∀ entry ∈ documents, ∀ part ∈ entry.2.parts, P part) : ∀ key nodes,
    (t.settingOf host documents).partials.get? key = some nodes → ∀ node ∈ nodes, node.All P := by
  intro key nodes found
  rcases mem_overlay (Entries.mem_of_get found) with known | ⟨entry, known, rfl⟩
  · exact Document.all_partials own known
  · exact Document.all_root (given entry known)

theorem document_of_compiled {options : Options}
    (compiled : (compileWith pair source).map (·.withOptions options) = .ok t) :
    Document.parseWith pair source = .ok t.document ∧ t.options = options := by
  unfold compileWith at compiled
  split at compiled
  · cases compiled
  · rename_i parsed
    cases compiled
    exact ⟨parsed, rfl⟩

theorem renderWith_course (t : Template) (host : Host) (depth : Nat)
    (read : readAll supplied = .ok documents) (data : Value) (journal : Journal) :
    ∃ visits outcome, (t.settingOf host documents).Course depth (.document t.document.root)
        (.start data journal) visits outcome ∧
      t.renderWith host depth supplied data journal = resultOf outcome := by
  obtain ⟨visits, course⟩ := Setting.walk_course (t.settingOf host documents) depth t.document.root
    (.start data journal)
  refine ⟨visits, _, course, ?_⟩
  rw [renderWith, read]
  rfl

theorem render_course (t : Template) (lambdaless : Value.Lambdaless host data) (depth : Nat)
    (journal : Journal) : ∃ visits outcome,
    (t.settingOf host []).Course depth (.document t.document.root) (.start data journal) visits outcome ∧
      (∀ v ∈ visits, ∀ text after pair, ¬ v.Sends (t.settingOf host []) text after pair) ∧
      t.render host depth data journal = resultOf outcome ∧
      ∀ fault, outcome.fault = some fault → fault = .tooDeep := by
  have none : readAll [] = .ok [] := rfl
  obtain ⟨visits, outcome, course, result⟩ := t.renderWith_course host depth none data journal
  have plain := course.plain lambdaless .ofRoot
  refine ⟨visits, outcome, course, plain, result, fun fault failed => ?_⟩
  cases fault with
  | tooDeep => rfl
  | parse cause =>
    obtain ⟨v, member, text, own, sends, -⟩ := (course.parse_fault failed).resolve_right id
    exact absurd sends (plain v member text _ own)

theorem resultOf_ok {outcome : Outcome} (done : resultOf outcome = (.ok text, journal)) :
    outcome.fault = none ∧ outcome.walk.out = text ∧ outcome.walk.journal = journal := by
  unfold resultOf at done
  split at done
  · rename_i found
    cases done
    exact ⟨found, rfl, rfl⟩
  · cases done

theorem resultOf_error {outcome : Outcome} (failed : resultOf outcome = (.error e, journal)) :
    ∃ fault, outcome.fault = some fault ∧ e = .ofFault fault ∧ outcome.walk.journal = journal := by
  unfold resultOf at failed
  split at failed
  · cases failed
  · rename_i fault found
    cases failed
    exact ⟨fault, found, rfl, rfl⟩

theorem fault_of_course {t : Template}
    (course : (t.settingOf host documents).Course depth (.document t.document.root)
      (.start data journal) visits outcome)
    (own : ∀ part ∈ t.document.parts, part.Usable)
    (given : ∀ entry ∈ documents, ∀ part ∈ entry.2.parts, part.Usable) :
    (∀ v ∈ visits, v.node.Usable) ∧ ∀ cause, outcome.fault = some (.parse cause) →
      cause ≠ .unusableDelimiters ∧ ∃ v ∈ visits, ∃ text pair,
        v.Sends (t.settingOf host documents) text outcome.walk.journal pair ∧
        journal <:+ v.walk.journal ∧ Document.parseWith pair text = .error cause := by
  have sound : Cache.Sound ([] : Cache) := fun _ member => by cases member
  have defined : ∀ key nodes, (t.settingOf host documents).partials.get? key = some nodes →
      ∀ node ∈ nodes, node.All Node.Usable := all_partials own given
  obtain ⟨visited, -⟩ := course.keeps (Setting.keeps_usable journal defined) (Document.all_root own)
    ⟨sound, List.suffix_refl journal⟩
  refine ⟨fun v member => (visited v member).1.self, fun cause failed => ?_⟩
  obtain ⟨v, member, text, pair, sends, unread⟩ := (course.parse_fault failed).resolve_right id
  obtain ⟨usable, -, grown⟩ := visited v member
  refine ⟨?_, v, member, text, pair, sends, grown, unread⟩
  refine Document.fault_of_usable ?_ unread
  cases sends with
  | interpolation looked answers => exact Delimiters.standard_usable
  | block looked answers => exact usable.self

-- A render fails only at a text that is no template: one of those that were supplied, read under the
-- standard pair, or one with which a lambda answered in this very render, read under the standard
-- pair at an interpolation and under the recorded pair at a section. All sections that a render comes
-- to record usable pairs. Without lambdas and supplied texts a render does not fail at all; it comes
-- too deep only if its partials lead round in a circle.
theorem failure_of_text {options : Options}
    (compiled : (compileWith pair source).map (·.withOptions options) = .ok t)
    (host : Host) (depth : Nat) (supplied : List (String × String)) (data : Value)
    (journal : Journal) :
    (∀ e after, t.renderWith host depth supplied data journal = (.error e, after) →
      e = .tooDeep ∨ ∃ cause, e = .parse cause ∧ cause ≠ .unusableDelimiters ∧
        ((∃ entry ∈ supplied, Document.parse entry.2 = .error cause) ∧ after = journal ∨
          ∃ documents visits outcome, readAll supplied = .ok documents ∧
            (t.settingOf host documents).Course depth (.document t.document.root)
              (.start data journal) visits outcome ∧
            ∃ v ∈ visits, ∃ text own, v.Sends (t.settingOf host documents) text after own ∧
              journal <:+ v.walk.journal ∧ Document.parseWith own text = .error cause)) ∧
    (∀ documents visits outcome, readAll supplied = .ok documents →
      (t.settingOf host documents).Course depth (.document t.document.root)
        (.start data journal) visits outcome → ∀ v ∈ visits, v.node.Usable) ∧
    (data.Lambdaless host →
      (∃ text after, t.render host depth data journal = (.ok text, after)) ∨
        ∃ after, t.render host depth data journal = (.error .tooDeep, after)) ∧
    (data.Lambdaless host → ∀ rank bound, Ranked t.document.partials rank →
      (∀ node ∈ t.document.root, node.Below rank bound) → bound < depth →
        ∃ text after, t.render host depth data journal = (.ok text, after)) := by
  have usable := Document.usable_parts (document_of_compiled compiled).1
  have given {documents : List (String × Document)} (read : readAll supplied = .ok documents) :
      ∀ entry ∈ documents, ∀ part ∈ entry.2.parts, part.Usable := by
    intro entry member
    obtain ⟨text, -, parsed⟩ := readAll_ok read entry member
    exact Document.usable_parts parsed
  refine ⟨fun e after failed => ?_, fun documents visits outcome read course =>
    (fault_of_course course usable (given read)).1, fun lambdaless => ?_,
    fun lambdaless rank bound ranked below deep => ?_⟩
  · cases read : readAll supplied with
    | error cause =>
      obtain ⟨entry, member, unread⟩ := readAll_error read
      rw [renderWith, read] at failed
      cases failed
      refine Or.inr ⟨cause, rfl, ?_, Or.inl ⟨⟨entry, member, unread⟩, rfl⟩⟩
      exact Document.fault_of_usable Delimiters.standard_usable unread
    | ok documents =>
      obtain ⟨visits, outcome, course, result⟩ := t.renderWith_course host depth read data journal
      rw [result] at failed
      obtain ⟨fault, found, rfl, rfl⟩ := resultOf_error failed
      cases fault with
      | tooDeep => exact Or.inl rfl
      | parse cause =>
        obtain ⟨other, sent⟩ := (fault_of_course course usable (given read)).2 cause found
        exact Or.inr ⟨cause, rfl, other, Or.inr ⟨documents, visits, outcome, rfl, course, sent⟩⟩
  · obtain ⟨visits, outcome, -, -, result, faults⟩ := t.render_course lambdaless depth journal
    rw [result, resultOf]
    cases found : outcome.fault with
    | none => exact Or.inl ⟨_, _, rfl⟩
    | some fault =>
      cases faults fault found
      exact Or.inr ⟨_, rfl⟩
  · obtain ⟨visits, outcome, course, plain, result, faults⟩ :=
      t.render_course lambdaless depth journal
    have least : Task.Below rank depth (.document t.document.root) := by
      refine ⟨depth - 1, by omega, fun node member part inside name indent same => ?_⟩
      have lower := below node member part inside name indent same
      omega
    rw [result, resultOf]
    cases found : outcome.fault with
    | none => exact ⟨_, _, rfl⟩
    | some fault =>
      cases faults fault found
      exact absurd found (course.not_tooDeep ranked plain nofun least)

end Template

namespace Unclosed

def source : String := "\x7b\x7b=| |=\x7d\x7d|#f|x|/f|"

def template : Template :=
  ⟨⟨[.block false "f" [.text "x"] "x" ⟨"|", "|"⟩], []⟩, ⟨.verbatim⟩⟩

def host : Host := ⟨fun _ _ _ => .text "|a", fun _ _ => none⟩

def data : Value := .map [("f", .lambda ⟨0, false⟩)]

theorem compiled : (Template.compileWith .standard source).map (·.withOptions ⟨.verbatim⟩) =
    .ok template := by decide +kernel

theorem below : ∀ node ∈ template.document.root, node.Below (fun _ => 0) 0 := by
  intro node top part inside name indent same
  subst same
  cases List.mem_singleton.mp top
  simp [Node.parts, Node.partsAll] at inside

end Unclosed

open Unclosed in
theorem Template.failure_of_text_unclosed :
    (compileWith .standard source).map (·.withOptions ⟨.verbatim⟩) = .ok template ∧
    template.renderWith host 2 [("p", "q")] data [] =
      (.error (.parse (.unclosedTag 0)), [.called ⟨0, false⟩ "x"]) ∧
    (∃ documents visits outcome, readAll [("p", "q")] = .ok documents ∧
      (template.settingOf host documents).Course 2 (.document template.document.root)
        (.start data []) visits outcome ∧
      ∃ v ∈ visits, ∃ text own,
        v.Sends (template.settingOf host documents) text [.called ⟨0, false⟩ "x"] own ∧
        Document.parseWith own text = .error (.unclosedTag 0)) ∧
    Value.Lambdaless host (.text "y") ∧
      ∃ text after, template.render host 2 (.text "y") [] = (.ok text, after) := by
  have failed : template.renderWith host 2 [("p", "q")] data [] =
      (.error (.parse (.unclosedTag 0)), [.called ⟨0, false⟩ "x"]) := by decide +kernel
  obtain ⟨fails, -⟩ := failure_of_text compiled host 2 [("p", "q")] data []
  obtain ⟨-, -, -, returns⟩ := failure_of_text compiled host 2 [] (.text "y") []
  refine ⟨compiled, failed, ?_, Value.lambdaless_text host "y", ?_⟩
  · rcases fails _ _ failed with deep | ⟨cause, same, -, ⟨-, unasked⟩ | sent⟩
    · cases deep
    · cases unasked
    · cases same
      obtain ⟨documents, visits, outcome, done, course, v, member, text, own, sends, -, unread⟩ := sent
      exact ⟨documents, visits, outcome, done, course, v, member, text, own, sends, unread⟩
  · exact returns (Value.lambdaless_text host "y") (fun _ => 0) 0
      (fun key nodes found => by cases found) below (by decide)

end Mustache
