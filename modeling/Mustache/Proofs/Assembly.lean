import Mustache.Document.Assembly

namespace Mustache
open Text

namespace Assembly
variable {items more : List Item}

def addAll (a : Assembly) (nodes : List Node) : Assembly := nodes.foldl add a

theorem add_partials (a : Assembly) (node : Node) : (a.add node).partials = a.partials := by
  unfold add
  split <;> rfl

theorem addAll_of_root (nodes root : List Node) (partials : Entries (List Node)) :
    (Assembly.mk root [] partials).addAll nodes = ⟨nodes.reverse ++ root, [], partials⟩ := by
  induction nodes generalizing root with
  | nil => rfl
  | cons node nodes ih =>
    have rest := ih (node :: root)
    simp only [addAll, List.foldl_cons, add, List.reverse_cons, List.append_assoc,
      List.singleton_append] at rest ⊢
    exact rest

theorem addAll_of_block (nodes : List Node) (root : List Node) (block : OpenBlock)
    (outer : List OpenBlock) (partials : Entries (List Node)) :
    (Assembly.mk root (block :: outer) partials).addAll nodes =
      ⟨root, { block with children := nodes.reverse ++ block.children } :: outer, partials⟩ := by
  induction nodes generalizing block with
  | nil => rfl
  | cons node nodes ih =>
    have rest := ih { block with children := node :: block.children }
    simp only [addAll, List.foldl_cons, add, List.reverse_cons, List.append_assoc,
      List.singleton_append] at rest ⊢
    exact rest

-- How a block ends: under its own key, a section as a node of the block around it, a definition as
-- a partial whose key is new.
inductive Leaves (source : List Char) (key : String) (stop : Nat) :
    Assembly → Assembly → Prop where
  | content : Leaves source key stop ⟨top, ⟨key, .content inverted start pair, children⟩ :: outer, known⟩
      ((Assembly.mk top outer known).add
        (.block inverted key children.reverse (rawText source start stop) pair))
  | definition (fresh : Entries.get? key known = none) : Leaves source key stop
      ⟨top, ⟨key, .definition, children⟩ :: outer, known⟩
      ⟨top, outer, Entries.insert key children.reverse known⟩

theorem leave_eq_ok_iff {a : Assembly} : a.leave source key stop = .ok b ↔ Leaves source key stop a b := by
  constructor
  · intro left
    obtain ⟨root, blocks, partials⟩ := a
    unfold leave at left
    dsimp only at left
    split at left
    · cases left
    · rename_i block outer
      obtain ⟨own, role, children⟩ := block
      split at left
      · rename_i same
        subst same
        cases role with
        | content inverted start pair => cases left; exact .content
        | definition =>
          dsimp only at left
          split at left
          · cases left
          · rename_i fresh
            cases left
            exact .definition fresh
      · cases left
  · intro leaves
    cases leaves with
    | content => simp only [leave, if_true]
    | definition fresh => simp only [leave, if_true, fresh]

theorem leave_enter (a : Assembly) (nodes : List Node) (inverted : Bool) (key : String)
    (pair : Delimiters) (source : List Char) (start stop : Nat) :
    ((a.enter key (.content inverted start pair)).addAll nodes).leave source key stop =
      .ok (a.add (.block inverted key nodes (rawText source start stop) pair)) := by
  rw [enter, addAll_of_block, leave]
  simp only [if_true, List.append_nil, List.reverse_reverse]

theorem feed_cons (item : Item) (fed : feed source a item = .ok b) :
    (item :: items).foldlM (feed source) a = items.foldlM (feed source) b := by
  rw [List.foldlM_cons, fed]
  rfl

theorem feed_append (fed : items.foldlM (feed source) a = .ok b) :
    (items ++ more).foldlM (feed source) a = more.foldlM (feed source) b := by
  rw [List.foldlM_append, fed]
  rfl

theorem feed_cons_iff : (item :: items).foldlM (feed source) a = .ok c ↔
    ∃ b, feed source a item = .ok b ∧ items.foldlM (feed source) b = .ok c := by
  rw [List.foldlM_cons]
  cases fed : feed source a item with
  | error fault => exact ⟨nofun, nofun⟩
  | ok b => exact ⟨fun rest => ⟨b, rfl, rest⟩, fun ⟨_, same, rest⟩ => by cases same; exact rest⟩

theorem feed_append_iff : (items ++ more).foldlM (feed source) a = .ok c ↔
    ∃ b, items.foldlM (feed source) a = .ok b ∧ more.foldlM (feed source) b = .ok c := by
  rw [List.foldlM_append]
  cases fed : items.foldlM (feed source) a with
  | error fault => exact ⟨nofun, nofun⟩
  | ok b => exact ⟨fun rest => ⟨b, rfl, rest⟩, fun ⟨_, same, rest⟩ => by cases same; exact rest⟩

theorem fault_of_feed (failed : items.foldlM (feed source) a = .error fault) :
    .error fault ∈ items ∨ fault ≠ .unusableDelimiters ∧ ∀ offset, fault ≠ .unclosedTag offset := by
  induction items generalizing a with
  | nil => cases failed
  | cons item items ih =>
    rw [List.foldlM_cons] at failed
    cases fed : feed source a item with
    | ok b =>
      rw [fed] at failed
      exact (ih failed).imp_left (List.mem_cons_of_mem _)
    | error own =>
      rw [fed] at failed
      cases failed
      rcases item with met | tag
      · cases fed
        exact Or.inl List.mem_cons_self
      · refine Or.inr ?_
        cases tag with
        | blockEnd key stop =>
          replace fed : a.leave source key stop = .error fault := fed
          unfold leave at fed
          repeat' split at fed
          all_goals cases fed
          all_goals simp
        | _ => cases fed

theorem feed_block (opens : feed source a item = .ok (a.enter key role))
    (filled : items.foldlM (feed source) (a.enter key role) = .ok b)
    (left : b.leave source key stop = .ok c) :
    (item :: (items ++ .ok (.blockEnd key stop) :: more)).foldlM (feed source) a =
      more.foldlM (feed source) c := by
  rw [feed_cons item opens, feed_append filled, feed_cons (.ok (.blockEnd key stop)) left]

theorem rawText_eq (whole : source = ahead ++ text ++ behind) (start : size ahead = offset) :
    rawText source offset (offset + size text) = String.ofList text := by
  have found : slice? source offset (offset + size text) = some text :=
    slice_eq_some_iff.mpr ⟨ahead, behind, whole, start, by rw [start]⟩
  rw [rawText, found, Option.getD_some]

end Assembly

theorem Document.fault_of_items {items : List Item} (failed : ofItems source items = .error fault) :
    .error fault ∈ items ∨ fault ≠ .unusableDelimiters ∧ ∀ offset, fault ≠ .unclosedTag offset := by
  unfold ofItems at failed
  split at failed
  · rename_i fed
    cases failed
    exact Assembly.fault_of_feed fed
  · unfold Assembly.finish at failed
    split at failed
    · cases failed
    · cases failed
      exact Or.inr ⟨nofun, nofun⟩

end Mustache
