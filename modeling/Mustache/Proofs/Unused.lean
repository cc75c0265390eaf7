import Mustache.Proofs.Dotted
import Mustache.Proofs.Escaping
import Mustache.Proofs.Lockstep
import Mustache.Proofs.Pruning

namespace Mustache

namespace Journal

def Consults (host : Host) (data : Value) (journal after : Journal) : Prop :=
  ∃ asked, after = asked ++ journal ∧ ∀ event ∈ asked, ∃ record key,
    event = .consulted record.id key ∧ Value.Within host data (.record record)

namespace Consults
variable {host : Host} {data : Value} {journal middle after : Journal}

theorem refl (host : Host) (data : Value) (journal : Journal) : Consults host data journal journal :=
  ⟨[], rfl, by simp⟩

theorem trans (first : Consults host data journal middle) (later : Consults host data middle after) :
    Consults host data journal after := by
  obtain ⟨asked, rfl, known⟩ := first
  obtain ⟨more, rfl, known'⟩ := later
  exact ⟨more ++ asked, (List.append_assoc ..).symm, List.forall_mem_append.mpr ⟨known', known⟩⟩

theorem trace (within : Value.Within host data value) (key : String) (journal : Journal) :
    Consults host data journal (Host.trace value key ++ journal) := by
  refine ⟨_, rfl, ?_⟩
  cases value with
  | record record => exact List.forall_mem_singleton.mpr ⟨record, key, rfl, within⟩
  | _ => exact List.forall_mem_nil _

end Consults
end Journal

namespace Host
open Value Journal
variable {host : Host} {data : Value}

theorem step_consults (lambdaless : Lambdaless host data) (within : Within host data value)
    (raw key : String) (journal : Journal) :
    Consults host data journal (host.step raw value key journal).2 := by
  have traced := Consults.trace within key journal
  cases found : host.held value key with
  | none => rwa [step_missing found]
  | some member =>
    have inside : Within host data member :=
      memberOf_within within (by rw [memberOf_eq host value key journal, found])
    rwa [step_plain found (lambdaless member inside)]

theorem search_consults (lambdaless : Lambdaless host data)
    (within : ∀ frame ∈ frames, Within host data frame) (raw key : String) (journal : Journal) :
    Consults host data journal (host.search raw key frames journal).2 := by
  induction frames generalizing journal with
  | nil => exact .refl host data journal
  | cons frame outer ih =>
    obtain ⟨here, rest⟩ := List.forall_mem_cons.mp within
    have first := step_consults lambdaless here raw key journal
    unfold search
    rcases met : host.step raw frame key journal with ⟨_ | found, later⟩ <;> rw [met] at first
    · exact first.trans (ih rest later)
    · exact first

theorem descend_consults (lambdaless : Lambdaless host data) (raw : String) {found : Found}
    (within : Within host data found.value) (scope : List Value) (keys : List String)
    (journal : Journal) :
    Consults host data journal (host.descend raw found scope keys journal).2 := by
  induction keys generalizing found scope journal with
  | nil => exact .refl host data journal
  | cons key keys ih =>
    have first := step_consults lambdaless within raw key journal
    unfold descend
    rcases met : host.step raw found.value key journal with ⟨_ | next, later⟩ <;> rw [met] at first
    · exact first
    · obtain ⟨inside, -⟩ := (step_within lambdaless within raw raw key journal).2 next later met
      exact first.trans (ih inside _ later)

end Host

theorem Frames.Inside.resolve_consults {host : Host} {frames : Frames}
    (inside : frames.Inside host data) (lambdaless : data.Lambdaless host) (path raw : String)
    (journal : Journal) :
    Journal.Consults host data journal (host.resolve frames path raw journal).2 := by
  unfold Host.resolve
  split
  · rw [Host.evaluate_plain (lambdaless _ inside.current)]
    exact .refl host data journal
  · split
    · exact .refl host data journal
    · rename_i key keys _
      have first := Host.search_consults lambdaless inside raw key journal
      have found := (Host.search_within lambdaless raw raw key inside journal).2
      rcases met : host.search raw key frames.toList journal with ⟨_ | member, later⟩ <;>
        rw [met] at first
      · exact first
      · exact first.trans
          (Host.descend_consults lambdaless raw (found member later met).1 [] keys later)

def Frames.reroot (frames : Frames) (root : Value) : Frames := { frames with root := root }

namespace Host
variable {host : Host} {root other : Value}

-- Of a root only the first segment of a path is asked for, and only where no frame before it has that.
theorem lookFor_root (same : ∀ journal, host.step raw root key journal = host.step raw other key journal)
    (inner : List Value) (keys : List String) (journal : Journal) :
    host.lookFor raw key keys (inner ++ [root]) journal =
      host.lookFor raw key keys (inner ++ [other]) journal := by
  induction inner generalizing journal with
  | nil => simp only [List.nil_append, lookFor, same]
  | cons frame inner ih =>
    rw [List.cons_append, List.cons_append, lookFor, lookFor]
    rcases host.step raw frame key journal with ⟨_ | found, later⟩
    · exact ih later
    · rfl

theorem step_map (same : Entries.get? key entries = Entries.get? key entries') (raw : String)
    (journal : Journal) :
    host.step raw (.map entries) key journal = host.step raw (.map entries') key journal := by
  rw [step, step, memberOf, memberOf, same]

theorem resolve_reroot {frames : Frames} (other : path ≠ ".")
    (apart : (segments path).head? ≠ some name) (root : frames.root = .map (Entries.erase name entries))
    (value : Value) (raw : String) (journal : Journal) :
    host.resolve (frames.reroot (.map (Entries.insert name value entries))) path raw journal =
      host.resolve frames path raw journal := by
  obtain ⟨key, keys, parts⟩ := segments_eq_cons path
  have different : name ≠ key := by
    rintro rfl
    exact apart (by rw [parts, List.head?_cons])
  have same : Entries.get? key (Entries.insert name value entries) =
      Entries.get? key (Entries.erase name entries) := by
    rw [Entries.get_insert_of_ne different, Entries.get_erase, if_neg different]
  rw [resolve_eq other parts, resolve_eq other parts, Frames.toList, Frames.toList, root]
  exact lookFor_root (step_map same raw) frames.inner keys journal

end Host

-- Not named by the single dot, and with a path that begins with another name.
def Node.Avoids (name : String) : Node → Prop
  | .interpolation key _ | .block _ key _ _ _ => key ≠ "." ∧ (segments key).head? ≠ some name
  | _ => True

instance (name : String) : DecidablePred (Node.Avoids name)
  | .interpolation key _ | .block _ key _ _ _ =>
    inferInstanceAs (Decidable (key ≠ "." ∧ (segments key).head? ≠ some name))
  | .text _ | .reference _ _ => inferInstanceAs (Decidable True)

theorem Node.Avoids.asked {node : Node} (avoids : node.Avoids name) (asks : node.Asks key raw) :
    key ≠ "." ∧ (segments key).head? ≠ some name := by
  cases asks <;> exact avoids

-- Two walks in one place. The one goes over the data without an entry, the other over the data with it,
-- and nothing was asked but of records of the former.
structure Walk.Rerooted (host : Host) (data root : Value) (journal : Journal) (w w' : Walk) : Prop where
  inside : w.frames.Inside host data
  bottom : w.frames.root = data
  other : w' = { w with frames := w.frames.reroot root }
  consults : journal.Consults host data w.journal

namespace Setting
variable {s : Setting} {data : Value}

theorem lookUp_rerooted (lambdaless : data.Lambdaless s.host)
    (without : data = .map (Entries.erase name entries)) (dotless : key ≠ ".")
    (apart : (segments key).head? ≠ some name)
    (paired : Walk.Rerooted s.host data (.map (Entries.insert name value entries)) journal w w')
    (looked : s.lookUp w key raw = (found, middle)) : ∃ middle',
    s.lookUp w' key raw = (found, middle') ∧
      Walk.Rerooted s.host data (.map (Entries.insert name value entries)) journal middle middle' := by
  obtain ⟨inside, bottom, rfl, consults⟩ := paired
  obtain ⟨resolved, same⟩ := lookUp_journal looked
  have further := inside.resolve_consults lambdaless key raw w.journal
  rw [resolved] at further
  generalize middle.journal = after at resolved same further
  subst same
  refine ⟨_, ?_, inside, bottom, rfl, consults.trans further⟩
  rw [lookUp, Host.resolve_reroot dotless apart (bottom.trans without), resolved]

theorem lockstep_unused (lambdaless : data.Lambdaless s.host)
    (without : data = .map (Entries.erase name entries))
    (defined : ∀ key nodes, s.partials.get? key = some nodes →
      ∀ node ∈ nodes, node.All (Node.Avoids name)) (value : Value) (journal : Journal) :
    s.Lockstep s id (Node.All (Node.Avoids name)) (Value.Within s.host data)
      (Walk.Rerooted s.host data (.map (Entries.insert name value entries)) journal) where
  inner avoids := avoids.inner
  partials found := defined _ _ found
  registry := by
    rintro key found rfl
    rw [show Node.reindentAll id = id from funext Node.reindentAll_id, Option.map_id, id]
  looks avoids asks paired looked := by
    obtain ⟨dotless, apart⟩ := avoids.self.asked asks
    exact lookUp_rerooted lambdaless without dotless apart paired looked
  finds _ _ paired looked := lookUp_inside lambdaless paired.inside looked
  each within passes := Passes.each_within within passes
  pushes := by
    rintro item w _ within ⟨inside, bottom, rfl, consults⟩
    exact ⟨inside.push within, bottom, rfl, consults⟩
  pops := by
    rintro w _ ⟨inside, bottom, rfl, consults⟩
    exact ⟨inside.pop, bottom, rfl, consults⟩
  refers := by
    rintro key indent w _ - ⟨inside, bottom, rfl, consults⟩
    exact ⟨inside, bottom, rfl, consults⟩
  returns := by
    rintro w _ last _ ⟨-, -, rfl, -⟩ ⟨inside, bottom, rfl, consults⟩
    exact ⟨inside, bottom, rfl, consults⟩
  texts := by
    rintro run w _ - ⟨inside, bottom, rfl, consults⟩
    exact ⟨inside, bottom, rfl, consults⟩
  shows := by
    rintro key escaped value w _ - - ⟨inside, bottom, rfl, consults⟩
    exact ⟨inside, bottom, rfl, consults⟩

theorem walk_unused (lambdaless : data.Lambdaless s.host)
    (without : data = .map (Entries.erase name entries))
    (defined : ∀ key nodes, s.partials.get? key = some nodes →
      ∀ node ∈ nodes, node.All (Node.Avoids name))
    (avoids : ∀ node ∈ nodes, node.All (Node.Avoids name)) (depth : Nat) (journal : Journal) :
    ∃ o, s.walk depth nodes (.start data journal) = o ∧ journal.Consults s.host data o.walk.journal ∧
      ∀ value, s.walk depth nodes (.start (.map (Entries.insert name value entries)) journal) =
        o.inFrames (o.walk.frames.reroot (.map (Entries.insert name value entries))) := by
  have paired (value : Value) := walk_lockstep (lockstep_unused lambdaless without defined value journal)
    avoids (w := .start data journal) ⟨.ofRoot, rfl, rfl, .refl _ _ journal⟩ depth
  rw [Node.reindentAll_id] at paired
  refine ⟨_, rfl, (paired .null).1.consults, fun value => ?_⟩
  obtain ⟨⟨-, -, other, -⟩, fault⟩ := paired value
  exact congrArg₂ Outcome.mk other fault

end Setting

namespace Value

theorem within_of_erase (within : Within host (.map (Entries.erase name entries)) value) :
    value = .map (Entries.erase name entries) ∨ Within host (.map entries) value := by
  induction within with
  | self => exact Or.inl rfl
  | item whole member ih =>
    rcases ih with same | inside
    · cases same
    · exact Or.inr (.item inside member)
  | entry whole member ih =>
    rcases ih with same | inside
    · cases same
      exact Or.inr (.entry .self (List.mem_filter.mp member).1)
    · exact Or.inr (.entry inside member)
  | field whole member ih =>
    rcases ih with same | inside
    · cases same
    · exact Or.inr (.field inside member)

theorem Lambdaless.erase (lambdaless : Lambdaless host (.map entries)) (name : String) :
    Lambdaless host (.map (Entries.erase name entries)) := by
  intro value within
  rcases within_of_erase within with rfl | inside
  · nofun
  · exact lambdaless value inside

end Value

namespace Template

theorem resultOf_journal (o : Outcome) : resultOf o = ((resultOf o).1, o.walk.journal) := by
  unfold resultOf
  split <;> rfl

theorem resultOf_inFrames (o : Outcome) (frames : Frames) :
    resultOf (o.inFrames frames) = resultOf o := by
  obtain ⟨w, _ | fault⟩ := o <;> rfl

-- What is not named has no influence. Where no variable and no section is named by the single dot, or
-- has a path that begins with a certain name, a render comes to the same with an entry of that name in
-- the data, whatever its value, as without it, and asks the same of the host. The rest of the data
-- holds no lambda, and no one is asked but records of it.
theorem renderWith_unused (t : Template) {host : Host} {entries : Entries Value} {name : String}
    (avoids : ∀ documents, readAll supplied = .ok documents →
      ∀ part ∈ (t.effective documents).parts, part.Avoids name)
    (lambdaless : (Value.map entries).Lambdaless host) (depth : Nat) (journal : Journal) :
    ∃ result asked,
      t.renderWith host depth supplied (.map (entries.erase name)) journal =
        (result, asked ++ journal) ∧
      (∀ value, t.renderWith host depth supplied ((Value.map entries).put name value) journal =
        (result, asked ++ journal)) ∧
      ∀ event ∈ asked, ∃ record key, event = .consulted record.id key ∧
        Value.Within host (.map (entries.erase name)) (.record record) := by
  cases read : readAll supplied with
  | error cause =>
    have refused (data : Value) : t.renderWith host depth supplied data journal =
        (.error (.parse cause), [] ++ journal) := by
      rw [renderWith, read]
      rfl
    exact ⟨_, [], refused _, fun value => refused _, List.forall_mem_nil _⟩
  | ok documents =>
    -- The walk without the entry is the first of the two, as its data holds no lambda.
    let s := t.settingOf host documents
    have parts := avoids documents read
    have defined : ∀ key nodes, s.partials.get? key = some nodes →
        ∀ node ∈ nodes, node.All (Node.Avoids name) := fun key nodes found =>
      Document.all_partials (d := t.effective documents) parts (Entries.mem_of_get found)
    obtain ⟨o, without, ⟨asked, grown, known⟩, extended⟩ := Setting.walk_unused
      (lambdaless.erase name) rfl defined (Document.all_root (d := t.effective documents) parts) depth
      journal
    have rendered (data : Value) : t.renderWith host depth supplied data journal =
        resultOf (s.walk depth (t.effective documents).root (.start data journal)) :=
      t.renderWith_walk host depth read data journal
    have result : resultOf o = ((resultOf o).1, asked ++ journal) := by
      rw [← grown]
      exact resultOf_journal o
    refine ⟨(resultOf o).1, asked, ?_, fun value => ?_, known⟩
    · rw [rendered, without]
      exact result
    · rw [rendered, Value.put, extended value, resultOf_inFrames]
      exact result

end Template

theorem RecordScript.mem_of_member {script : RecordScript} (silent : script.echoes = false)
    (found : script.member? key = some value) : (key, value) ∈ script.members := by
  unfold member? at found
  split at found
  · rename_i listed
    cases found
    exact Entries.mem_of_get listed
  · simp [silent] at found

namespace Bystander

def template : Template :=
  ⟨⟨[.block false "l" [.interpolation "n.x" true, .reference "p" " "] "" .standard], []⟩, .standard⟩

def supplied : List (String × String) := [("p", "\x7b\x7b^m\x7d\x7d-\x7b\x7b/m\x7d\x7d")]

def documents : List (String × Document) :=
  [("p", ⟨[.block true "m" [.text "-"] "-" .standard], []⟩)]

def host : Host := .ofScripts #[] #[⟨[("n", .map [("x", .number (.int 7))])], false⟩]

def entries : Entries Value := [("l", .list [.record ⟨0, "r"⟩]), ("x", .text "old")]

def asked : Journal := [.consulted 0 "m", .consulted 0 "n"]

theorem avoids : ∀ given, Template.readAll supplied = .ok given →
    ∀ part ∈ (template.effective given).parts, part.Avoids "x" := by
  intro given read
  have same : Template.readAll supplied = .ok documents := by decide +kernel
  cases read.symm.trans same
  decide +kernel

theorem lambdaless : (Value.map entries).Lambdaless host := by
  have record : Value.Lambdaless host (.record ⟨0, "r"⟩) := by
    refine Value.lambdaless_of_parts nofun fun part direct => ?_
    cases direct with | field member => ?_
    cases List.mem_singleton.mp (RecordScript.mem_of_member rfl member)
    refine Value.lambdaless_of_parts nofun fun part direct => ?_
    cases direct with | entry member => ?_
    cases List.mem_singleton.mp member
    exact Value.lambdaless_of_parts nofun nofun
  refine Value.lambdaless_of_parts nofun fun part direct => ?_
  cases direct with | entry member => ?_
  rcases List.mem_pair.mp member with same | same <;> cases same
  · refine Value.lambdaless_of_parts nofun fun part direct => ?_
    cases direct with | item member => ?_
    cases List.mem_singleton.mp member
    exact record
  · exact Value.lambdaless_text host "old"

end Bystander

open Bystander in
theorem Template.renderWith_unused_bystander :
    (∀ given, Template.readAll supplied = .ok given →
      ∀ part ∈ (template.effective given).parts, part.Avoids "x") ∧
    (Value.map entries).Lambdaless host ∧
    template.renderWith host 3 supplied (.map (entries.erase "x")) [] = (.ok "7 -", asked) ∧
    ∀ value, template.renderWith host 3 supplied ((Value.map entries).put "x" value) [] =
      (.ok "7 -", asked) := by
  obtain ⟨result, journal, without, extended, -⟩ := renderWith_unused template avoids lambdaless 3 []
  have written : template.renderWith host 3 supplied (.map (entries.erase "x")) [] =
      (.ok "7 -", asked) := by decide +kernel
  refine ⟨avoids, lambdaless, written, fun value => ?_⟩
  rw [extended value, ← without, written]

end Mustache
