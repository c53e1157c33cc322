import CilPatch.Flow.Block

/-!
# Blocks tile the positions of a body

`Block.Tile id lo hi bs` says that the blocks `bs`, numbered from `id` on, follow one another
without gap from `lo` to `hi`, none of them empty.  Cutting at increasing starting points gives
such a list (`tile_cut`), and everything else about the partition follows from that alone: the
number and the bounds of each block (`Tile.get`), its neighbour (`Tile.next`), and that the table of
owners names at each position the one block that contains it (`Tile.owner`, `Tile.eq_of_contains`).
-/

namespace CilPatch.Block

/-- the blocks, numbered from `id` on, lie side by side from `lo` to `hi` -/
def Tile : Nat → Nat → Nat → List Block → Prop
  | _, lo, hi, [] => lo = hi
  | id, lo, hi, b :: rest =>
    b.id = id ∧ b.start = lo ∧ b.start < b.stop ∧ Tile (id + 1) b.stop hi rest

/-- the number of the block of each position -/
def owners (bs : List Block) : List Nat := bs.flatMap fun b => List.replicate b.size b.id

theorem owners_cons (b : Block) (bs : List Block) :
    owners (b :: bs) = List.replicate b.size b.id ++ owners bs := List.flatMap_cons

/-! ## cutting -/

theorem map_start_go (n id : Nat) (starts : List Nat) :
    (cut.go n id starts).map (·.start) = starts := by
  fun_induction cut.go n id starts with
  | case1 id => rfl
  | case2 id start => rfl
  | case3 id start next rest ih => rw [List.map_cons, ih]

theorem tile_go {n id lo : Nat} {starts : List Nat} (hp : starts.Pairwise (· < ·))
    (hn : ∀ s ∈ starts, s < n) (hlo : starts.head? = some lo) :
    Tile id lo n (cut.go n id starts) := by
  fun_induction cut.go n id starts generalizing lo with
  | case1 id => cases hlo
  | case2 id start =>
    cases hlo
    exact ⟨rfl, rfl, hn start List.mem_cons_self, rfl⟩
  | case3 id start next rest ih =>
    cases hlo
    obtain ⟨hlt, hp⟩ := List.pairwise_cons.mp hp
    refine ⟨rfl, rfl, hlt next List.mem_cons_self, ?_⟩
    exact ih hp (fun s hs => hn s (List.mem_cons_of_mem _ hs)) rfl

theorem map_start_cut (n : Nat) (starts : List Nat) : (cut n starts).map (·.start) = starts :=
  map_start_go n 0 starts

theorem tile_cut {n : Nat} {starts : List Nat} (hp : starts.Pairwise (· < ·))
    (hn : ∀ s ∈ starts, s < n) (h0 : starts.head? = some 0) : Tile 0 0 n (cut n starts) :=
  tile_go hp hn h0

/-! ## tiles -/

namespace Tile

variable {id lo hi : Nat} {bs : List Block}

theorem le (h : Tile id lo hi bs) : lo ≤ hi := by
  induction bs generalizing id lo with
  | nil => exact Nat.le_of_eq h
  | cons b bs ih =>
    obtain ⟨-, rfl, hlt, hrest⟩ := h
    exact Nat.le_trans (Nat.le_of_lt hlt) (ih hrest)

theorem get (h : Tile id lo hi bs) {k : Nat} {b : Block} (hb : bs[k]? = some b) :
    b.id = id + k ∧ lo ≤ b.start ∧ b.start < b.stop ∧ b.stop ≤ hi := by
  induction bs generalizing id lo k with
  | nil => cases hb
  | cons c bs ih =>
    obtain ⟨hid, rfl, hlt, hrest⟩ := h
    cases k with
    | zero =>
      cases hb
      exact ⟨hid, Nat.le_refl _, hlt, hrest.le⟩
    | succ k =>
      obtain ⟨h1, h2, h3, h4⟩ := ih hrest hb
      exact ⟨by omega, by omega, h3, h4⟩

theorem get_id (h : Tile 0 lo hi bs) {b : Block} (hb : b ∈ bs) : bs[b.id]? = some b := by
  obtain ⟨k, hk⟩ := List.mem_iff_getElem?.mp hb
  rw [(h.get hk).1, Nat.zero_add]
  exact hk

/-- a block ends where the next one starts, and the last one ends at the end -/
theorem next (h : Tile id lo hi bs) {k : Nat} {b : Block} (hb : bs[k]? = some b) :
    (∃ c, bs[k + 1]? = some c ∧ c.start = b.stop) ∨ (k + 1 = bs.length ∧ b.stop = hi) := by
  induction bs generalizing id lo k with
  | nil => cases hb
  | cons c bs ih =>
    obtain ⟨-, -, -, hrest⟩ := h
    cases k with
    | zero =>
      cases hb
      cases bs with
      | nil => exact .inr ⟨rfl, hrest⟩
      | cons d bs => exact .inl ⟨d, rfl, hrest.2.1⟩
    | succ k =>
      rcases ih hrest hb with hn | ⟨hk, hs⟩
      · exact .inl hn
      · exact .inr ⟨congrArg Nat.succ hk, hs⟩

/-- the table of owners names at each position the block that contains it -/
theorem owner (h : Tile id lo hi bs) {i : Nat} (hlo : lo ≤ i) (hhi : i < hi) :
    ∃ k b, bs[k]? = some b ∧ b.start ≤ i ∧ i < b.stop ∧
      (owners bs)[i - lo]? = some (id + k) := by
  induction bs generalizing id lo with
  | nil =>
    have e : lo = hi := h
    omega
  | cons c bs ih =>
    obtain ⟨hid, rfl, hlt, hrest⟩ := h
    rw [owners_cons]
    have hsize : (List.replicate c.size c.id).length = c.stop - c.start := List.length_replicate
    by_cases hi' : i < c.stop
    · refine ⟨0, c, rfl, hlo, hi', ?_⟩
      rw [List.getElem?_append_left (by omega), List.getElem?_replicate, if_pos, hid]
      · rfl
      · unfold size
        omega
    · obtain ⟨k, b, hb, h1, h2, ho⟩ := ih hrest (by omega)
      refine ⟨k + 1, b, hb, h1, h2, ?_⟩
      rw [List.getElem?_append_right (by omega), hsize,
        show i - c.start - (c.stop - c.start) = i - c.stop by omega, ho]
      congr 1
      omega

/-- no position lies in two blocks -/
theorem eq_of_contains (h : Tile id lo hi bs) {k k' i : Nat} {b b' : Block}
    (hb : bs[k]? = some b) (hb' : bs[k']? = some b') (hi1 : b.start ≤ i) (hi2 : i < b.stop)
    (hi1' : b'.start ≤ i) (hi2' : i < b'.stop) : k = k' := by
  induction bs generalizing id lo k k' with
  | nil => cases hb
  | cons c bs ih =>
    obtain ⟨-, rfl, hlt, hrest⟩ := h
    cases k with
    | zero =>
      cases hb
      cases k' with
      | zero => rfl
      | succ k' =>
        have hge := (hrest.get hb').2.1
        omega
    | succ k =>
      cases k' with
      | zero =>
        cases hb'
        have hge := (hrest.get hb).2.1
        omega
      | succ k' => exact congrArg Nat.succ (ih hrest hb hb')

theorem length_owners (h : Tile id lo hi bs) : (owners bs).length = hi - lo := by
  induction bs generalizing id lo with
  | nil =>
    have e : lo = hi := h
    rw [e, Nat.sub_self]
    rfl
  | cons c bs ih =>
    obtain ⟨-, rfl, hlt, hrest⟩ := h
    have hle := hrest.le
    rw [owners_cons, List.length_append, List.length_replicate, ih hrest]
    unfold size
    omega

end Tile

end CilPatch.Block
