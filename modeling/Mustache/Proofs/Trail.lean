import Mathlib.Data.List.Perm.Subperm
import Mathlib.Logic.Relation
import Mustache.Proofs.Lambdaless
import Mustache.Proofs.Origin

namespace Mustache

namespace Node

def target? : Node → Option String
  | .reference key _ => some key
  | _ => none

def targets (nodes : List Node) : List String := (partsAll nodes).filterMap target?

theorem mem_targets : key ∈ targets nodes ↔ ∃ indent, .reference key indent ∈ partsAll nodes := by
  rw [targets, List.mem_filterMap]
  constructor
  · rintro ⟨part, inside, same⟩
    cases part with
    | reference own indent =>
      cases same
      exact ⟨indent, inside⟩
    | _ => cases same
  · rintro ⟨indent, inside⟩
    exact ⟨_, inside, rfl⟩

theorem mem_targets_reference (key indent : String) : key ∈ targets [.reference key indent] :=
  mem_targets.mpr ⟨indent, mem_partsAll.mpr ⟨_, List.mem_cons_self, mem_parts_self _⟩⟩

theorem targets_subset_cons (first : Node) (rest : List Node) : targets rest ⊆ targets (first :: rest) := by
  intro key member
  obtain ⟨indent, inside⟩ := mem_targets.mp member
  refine mem_targets.mpr ⟨indent, ?_⟩
  rw [partsAll]
  exact List.mem_append_right _ inside

theorem targets_subset_of_mem (member : node ∈ nodes) : targets [node] ⊆ targets nodes := by
  intro key inside
  obtain ⟨indent, part⟩ := mem_targets.mp inside
  rw [partsAll, partsAll, List.append_nil] at part
  exact mem_targets.mpr ⟨indent, mem_partsAll.mpr ⟨node, member, part⟩⟩

theorem targets_subset_block (inverted : Bool) (key : String) (children : List Node) (raw : String)
    (pair : Delimiters) : targets children ⊆ targets [.block inverted key children raw pair] := by
  intro name member
  rw [targets, partsAll, partsAll, List.append_nil, parts]
  exact member

end Node

def Leads (partials : Entries (List Node)) (key other : String) : Prop :=
  ∃ nodes, partials.get? key = some nodes ∧ other ∈ Node.targets nodes

def Reachable (partials : Entries (List Node)) (nodes : List Node) (key : String) : Prop :=
  ∃ first ∈ Node.targets nodes, Relation.ReflTransGen (Leads partials) first key

-- No partial that can be reached leads round to itself.
def Acyclic (partials : Entries (List Node)) (nodes : List Node) : Prop :=
  ∀ key, Reachable partials nodes key → ¬ Relation.TransGen (Leads partials) key key

-- Partials that are entered one inside the other, outermost first.
inductive Trail (partials : Entries (List Node)) : List Node → List String → Prop where
  | here : Trail partials nodes []
  | along {inner : List Node} (refers : key ∈ Node.targets nodes)
      (found : partials.get? key = some inner) (further : Trail partials inner keys) :
      Trail partials nodes (key :: keys)

section
variable {partials : Entries (List Node)} {nodes inner : List Node} {keys : List String}

theorem Reachable.through (refers : key ∈ Node.targets nodes) (found : partials.get? key = some inner)
    (reachable : Reachable partials inner other) : Reachable partials nodes other := by
  obtain ⟨first, member, path⟩ := reachable
  exact ⟨key, refers, .head ⟨inner, found, member⟩ path⟩

theorem Acyclic.through (acyclic : Acyclic partials nodes) (refers : key ∈ Node.targets nodes)
    (found : partials.get? key = some inner) : Acyclic partials inner :=
  fun other reachable => acyclic other (reachable.through refers found)

theorem Acyclic.of_rank (rank : String → Nat) (Live : String → Prop)
    (starts : ∀ key ∈ Node.targets nodes, Live key)
    (falls : ∀ key other, Live key → Leads partials key other → Live other ∧ rank other < rank key) :
    Acyclic partials nodes := by
  rintro key ⟨first, member, path⟩ circle
  have live : Live key := by
    clear circle
    induction path with
    | refl => exact starts first member
    | tail _ leads ih => exact (falls _ _ ih leads).1
  have lower {other : String} (path : Relation.TransGen (Leads partials) key other) :
      Live other ∧ rank other < rank key := by
    induction path with
    | single leads => exact falls _ _ live leads
    | tail _ leads ih =>
      obtain ⟨next, less⟩ := falls _ _ ih.1 leads
      exact ⟨next, Nat.lt_trans less ih.2⟩
  exact Nat.lt_irrefl _ (lower circle).2

namespace Trail

theorem wider (trail : Trail partials nodes keys) (sub : Node.targets nodes ⊆ Node.targets more) :
    Trail partials more keys := by
  cases trail with
  | here => exact .here
  | along refers found further => exact .along (sub refers) found further

theorem reachable (trail : Trail partials nodes keys) : ∀ key ∈ keys, Reachable partials nodes key := by
  induction trail with
  | here => simp
  | along refers found further ih =>
    refine List.forall_mem_cons.mpr ⟨⟨_, refers, .refl⟩, fun other member => ?_⟩
    exact (ih other member).through refers found

theorem defined (trail : Trail partials nodes keys) : keys ⊆ partials.map Prod.fst := by
  induction trail with
  | here => exact List.nil_subset _
  | along refers found further ih =>
    exact List.cons_subset.mpr ⟨List.mem_map_of_mem (Entries.mem_of_get found), ih⟩

theorem nodup (trail : Trail partials nodes keys) (acyclic : Acyclic partials nodes) : keys.Nodup := by
  induction trail with
  | here => exact .nil
  | along refers found further ih =>
    refine List.nodup_cons.mpr ⟨fun member => ?_, ih (acyclic.through refers found)⟩
    obtain ⟨first, inside, path⟩ := further.reachable _ member
    exact acyclic _ ⟨_, refers, .refl⟩ (.head' ⟨_, found, inside⟩ path)

theorem length_le (trail : Trail partials nodes keys) (acyclic : Acyclic partials nodes) :
    keys.length ≤ partials.length := by
  have fits := (trail.nodup acyclic).subperm trail.defined
  have short := fits.length_le
  rwa [List.length_map] at short

theorem length_le_rank (trail : Trail partials nodes keys) {rank : String → Nat}
    (falls : ∀ key other, Leads partials key other → rank other < rank key)
    (below : ∀ key ∈ Node.targets nodes, rank key < bound) : keys.length ≤ bound := by
  induction trail generalizing bound with
  | here => exact Nat.zero_le _
  | along refers found further ih =>
    have inner := ih fun other inside => falls _ other ⟨_, found, inside⟩
    have first := below _ refers
    rw [List.length_cons]
    omega

end Trail
end
end Mustache
