import Mathlib

/- Stacks linked through a field of their own cells, as a free list is: `head` is the first
   cell and `next` the link of each. -/
namespace FreeList
variable {α : Type*} {next next' : α → Option α} {head : Option α} {a : α} {xs ys : List α}

/-- Following the links from head visits exactly xs and then ends. -/
def Chain (next : α → Option α) : Option α → List α → Prop
  | head, [] => head = none
  | head, a :: xs => head = some a ∧ Chain next (next a) xs

theorem chain_congr (same : ∀ a ∈ xs, next' a = next a) (chain : Chain next head xs) :
    Chain next' head xs := by
  induction xs generalizing head with
  | nil => exact chain
  | cons a xs ih =>
    refine ⟨chain.1,?_⟩
    rw [same a (List.mem_cons_self ..)]
    exact ih (fun b member => same b (List.mem_cons_of_mem _ member)) chain.2

theorem chain_unique (one : Chain next head xs) (other : Chain next head ys) : xs = ys := by
  induction xs generalizing head ys with
  | nil =>
    cases ys with
    | nil => rfl
    | cons b ys => cases one.symm.trans other.1
  | cons a xs ih =>
    cases ys with
    | nil => cases one.1.symm.trans other
    | cons b ys =>
      obtain rfl : a = b := Option.some.inj (one.1.symm.trans other.1)
      rw [ih one.2 other.2]

theorem chain_from (chain : Chain next head xs) (member : a ∈ xs) :
    ∃ ys, Chain next (some a) ys ∧ ys.length ≤ xs.length := by
  induction xs generalizing head with
  | nil => cases member
  | cons b xs ih =>
    rcases List.mem_cons.mp member with rfl | later
    · exact ⟨a :: xs,chain.1 ▸ chain,le_refl _⟩
    · obtain ⟨ys,suffix,short⟩ := ih chain.2 later
      exact ⟨ys,suffix,short.trans (Nat.le_succ _)⟩

/-- A chain that ends visits no cell twice. -/
theorem chain_nodup (chain : Chain next head xs) : xs.Nodup := by
  induction xs generalizing head with
  | nil => exact List.nodup_nil
  | cons a xs ih =>
    refine List.nodup_cons.mpr ⟨fun again => ?_,ih chain.2⟩
    obtain ⟨ys,suffix,short⟩ := chain_from chain.2 again
    have whole : Chain next (some a) (a :: xs) := ⟨rfl,chain.2⟩
    rw [chain_unique suffix whole] at short
    exact absurd short (by simp)

variable [DecidableEq α]

theorem chain_update (v : Option α) (outside : a ∉ xs) (chain : Chain next head xs) :
    Chain (Function.update next a v) head xs := by
  refine chain_congr (fun b member => Function.update_of_ne ?_ _ _) chain
  rintro rfl
  exact outside member

/-- Releasing a cell that is not in the chain. -/
theorem chain_push (outside : a ∉ xs) (chain : Chain next head xs) :
    Chain (Function.update next a head) (some a) (a :: xs) := by
  refine ⟨rfl,?_⟩
  rw [Function.update_self]
  exact chain_update head outside chain

/-- Acquiring the head, whose link may then be overwritten. -/
theorem chain_pop (chain : Chain next (some a) xs) (v : Option α) :
    ∃ rest, xs = a :: rest ∧ a ∉ rest ∧ Chain (Function.update next a v) (next a) rest := by
  cases xs with
  | nil => cases chain
  | cons b rest =>
    obtain rfl : a = b := Option.some.inj chain.1
    have outside := (List.nodup_cons.mp (chain_nodup chain)).1
    exact ⟨rest,rfl,outside,chain_update v outside chain.2⟩

omit [DecidableEq α] in
/-- A cell linked to itself lies on no chain. -/
theorem self_link_no_chain (link : next a = some a) : ¬ Chain next (some a) xs := by
  intro chain
  cases xs with
  | nil => cases chain
  | cons b rest =>
    obtain rfl : a = b := Option.some.inj chain.1
    have again : Chain next (some a) rest := link ▸ chain.2
    have shorter := congrArg List.length (chain_unique again chain)
    simp at shorter

/-- A table whose cells from i on are each linked to the one after. -/
theorem chain_successors {n i : Nat} {next : Fin n → Option (Fin n)}
    (links : ∀ p, i ≤ p.val → next p = if h : p.val + 1 < n then some ⟨p.val + 1,h⟩ else none) :
    ∀ m j, j + m = n → i ≤ j → ∃ xs, Chain next (if h : j < n then some ⟨j,h⟩ else none) xs ∧
      ∀ p, p ∈ xs ↔ j ≤ p.val := by
  intro m
  induction m with
  | zero =>
    intro j all _
    refine ⟨[],dif_neg (by omega),fun p => ?_⟩
    simp only [List.not_mem_nil, false_iff]
    omega
  | succ m ih =>
    intro j all low
    obtain ⟨xs,chain,members⟩ := ih (j + 1) (by omega) (by omega)
    have inside : j < n := by omega
    refine ⟨⟨j,inside⟩ :: xs,⟨dif_pos inside,?_⟩,fun p => ?_⟩
    · rw [links ⟨j,inside⟩ low]
      exact chain
    · rw [List.mem_cons, members p, Fin.ext_iff]
      simp only
      omega

end FreeList
