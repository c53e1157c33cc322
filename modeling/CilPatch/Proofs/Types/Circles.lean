import Mathlib.Order.Defs.Unbundled
import CilPatch.Proofs.Types.Bases

/-!
# Circles of classes

Bases may run in a circle, and then each class of the circle may stand for each other one.  Nothing
else lets two types stand for each other: they are two classes of one circle, or arrays of such, both
equally deep (`assignable_both_iff`).  So types are ordered wherever no two classes lie on a circle
(`NoCircle.antisymm`).

`assignability_preorder` collects what the order of types obeys whatever was registered.
-/

namespace CilPatch

/-- arrays of arrays, `n` deep, of `t` -/
def CilType.layered : Nat → CilType → CilType
  | 0, t => t
  | n + 1, t => array (layered n t)

theorem CilType.isReference_layered {t : CilType} (ht : t.isReference = true) (n : Nat) :
    (layered n t).isReference = true := by
  cases n with
  | zero => exact ht
  | succ n => rfl

namespace Hierarchy

/-- each of the two classes is reached from the other through one or more bases -/
def OnCircle (h : Hierarchy) (a b : String) : Prop :=
  Relation.TransGen h.Base a b ∧ Relation.TransGen h.Base b a

/-- no two classes lie on a circle; one may be its own base -/
def NoCircle (h : Hierarchy) : Prop := ∀ a b, h.OnCircle a b → a = b

/-- no class lies above itself -/
def Acyclic (h : Hierarchy) : Prop := ∀ name, ¬Relation.TransGen h.Base name name

variable {h : Hierarchy} {s t : CilType} {a b : String}

/-! ## what lies above or below a type of one shape -/

theorem eq_null_of_assignable (e : h.assignable s .null = true) : s = .null := by
  rcases assignable_iff.mp e with e | e | ⟨e, -⟩ | ⟨e, -⟩ | ⟨_, _, -, e, -⟩ | ⟨_, _, -, e, -⟩ | ⟨e, -⟩
  · exact e
  · cases e
  · exact e
  all_goals cases e

theorem eq_or_of_object_assignable (e : h.assignable .object t = true) :
    t = .object ∨ t = .unknown := by
  rcases assignable_iff.mp e with e | e | ⟨e, -⟩ | ⟨e, -⟩ | ⟨_, _, e, -⟩ | ⟨_, _, e, -⟩ | ⟨-, e⟩
  · exact .inl e.symm
  · exact .inr e
  · cases e
  · exact .inl e
  all_goals cases e

theorem eq_or_of_i4_assignable (e : h.assignable .i4 t = true) : t = .i4 ∨ t = .unknown := by
  rcases assignable_iff.mp e with e | e | ⟨e, -⟩ | ⟨-, e⟩ | ⟨_, _, e, -⟩ | ⟨_, _, e, -⟩ | ⟨e, -⟩
  · exact .inl e.symm
  · exact .inr e
  · cases e
  · cases e
  · cases e
  · cases e
  · exact .inl e

theorem derives_of_assignable (hne : a ≠ b)
    (e : h.assignable (.classType a) (.classType b) = true) : h.derives a b = true := by
  rcases assignable_iff.mp e with e | e | ⟨e, -⟩ | ⟨e, -⟩ | ⟨_, _, ea, eb, e⟩ | ⟨_, _, e, -⟩ | ⟨e, -⟩
  · cases e
    exact absurd rfl hne
  · cases e
  · cases e
  · cases e
  · cases ea
    cases eb
    exact e
  all_goals cases e

theorem element_of_assignable (hne : s ≠ t) (e : h.assignable (.array s) (.array t) = true) :
    h.assignable s t = true := by
  rcases assignable_iff.mp e with e | e | ⟨e, -⟩ | ⟨e, -⟩ | ⟨_, _, e, -⟩ | ⟨_, _, es, et, -, -, e⟩ | ⟨e, -⟩
  · cases e
    exact absurd rfl hne
  · cases e
  · cases e
  · cases e
  · cases e
  · cases es
    cases et
    exact e
  · cases e

/-! ## types that may stand for each other -/

theorem exists_circle {h : Hierarchy} {s t : CilType} (hne : s ≠ t)
    (hst : h.assignable s t = true) (hts : h.assignable t s = true) :
    ∃ n a b, a ≠ b ∧ h.OnCircle a b ∧ s = .layered n (.classType a) ∧
      t = .layered n (.classType b) := by
  rcases assignable_iff.mp hst with
    rfl | rfl | ⟨rfl, -⟩ | ⟨rfl, hs⟩ | ⟨a, b, rfl, rfl, hab⟩ | ⟨s, t, rfl, rfl, -, -, hab⟩ | ⟨rfl, hs⟩
  · exact absurd rfl hne
  · exact absurd (eq_unknown_of_assignable hts) hne
  · exact absurd (eq_null_of_assignable hts).symm hne
  · rcases eq_or_of_object_assignable hts with rfl | rfl
    · exact absurd rfl hne
    · cases hs
  · have hab' : a ≠ b := fun e => hne (congrArg _ e)
    have hba := derives_of_assignable (Ne.symm hab') hts
    exact ⟨0, a, b, hab', ⟨derives_iff.mp hab, derives_iff.mp hba⟩, rfl, rfl⟩
  · have hst' : s ≠ t := fun e => hne (congrArg _ e)
    obtain ⟨n, a, b, hab', hcircle, rfl, rfl⟩ :=
      exists_circle hst' hab (element_of_assignable (Ne.symm hst') hts)
    exact ⟨n + 1, a, b, hab', hcircle, rfl, rfl⟩
  · rcases eq_or_of_i4_assignable hts with rfl | rfl
    · exact absurd rfl hne
    · cases hs
termination_by sizeOf s

theorem assignable_layered (hab : Relation.TransGen h.Base a b) (n : Nat) :
    h.assignable (.layered n (.classType a)) (.layered n (.classType b)) = true := by
  induction n with
  | zero => exact assignable_class (derives_iff.mpr hab)
  | succ n ih =>
    exact assignable_array (CilType.isReference_layered rfl n) (CilType.isReference_layered rfl n) ih

/-- Two types may stand for each other exactly if they are two classes of one circle, or arrays of
two such classes, both equally deep. -/
theorem assignable_both_iff (hne : s ≠ t) :
    h.assignable s t = true ∧ h.assignable t s = true ↔
      ∃ n a b, a ≠ b ∧ h.OnCircle a b ∧ s = .layered n (.classType a) ∧
        t = .layered n (.classType b) := by
  constructor
  · rintro ⟨hst, hts⟩
    exact exists_circle hne hst hts
  · rintro ⟨n, a, b, -, ⟨hab, hba⟩, rfl, rfl⟩
    exact ⟨assignable_layered hab n, assignable_layered hba n⟩

theorem NoCircle.antisymm (hc : h.NoCircle) (hst : h.assignable s t = true)
    (hts : h.assignable t s = true) : s = t := by
  by_contra hne
  obtain ⟨n, a, b, hab, hcircle, -, -⟩ := exists_circle hne hst hts
  exact hab (hc a b hcircle)

/-- only a class that has a base can lie above itself -/
theorem acyclic_iff :
    h.Acyclic ↔ ∀ name ∈ h.bases.map Prod.fst, h.derives name name = false := by
  constructor
  · intro ha name _
    rw [Bool.eq_false_iff]
    exact fun e => ha name (derives_iff.mp e)
  · intro hall name hname
    obtain ⟨_, hb, -⟩ := Relation.TransGen.head'_iff.mp hname
    have e := derives_iff.mpr hname
    rw [hall name (mem_of_base? hb)] at e
    cases e

instance (h : Hierarchy) : Decidable h.Acyclic := decidable_of_iff _ acyclic_iff.symm

theorem Acyclic.noCircle (ha : h.Acyclic) : h.NoCircle :=
  fun a _ hab => absurd (hab.1.trans hab.2) (ha a)

/-- **Assignability is a preorder with `unknown` on top, whatever was registered.**  It is decided by
a walk along the current bases that ends in every hierarchy, and only circles of bases keep it from
being an order. -/
theorem assignability_preorder (registrations : List (String × String)) :
    (∀ derived base,
        (registered registrations).Walk base [] derived
          ((registered registrations).derives derived base) ∧
        ((registered registrations).derives derived base = true ↔
          Relation.TransGen (CurrentBase registrations) derived base)) ∧
      IsPreorder CilType (fun s t => (registered registrations).assignable s t = true) ∧
      (∀ t, (registered registrations).assignable t .unknown = true ∧
        ((registered registrations).assignable .unknown t = true ↔ t = .unknown)) ∧
      ∀ s t, s ≠ t →
        ((registered registrations).assignable s t = true ∧
            (registered registrations).assignable t s = true ↔
          ∃ n a b, a ≠ b ∧ Relation.TransGen (CurrentBase registrations) a b ∧
            Relation.TransGen (CurrentBase registrations) b a ∧
            s = .layered n (.classType a) ∧ t = .layered n (.classType b)) := by
  have hbase : (registered registrations).Base = CurrentBase registrations :=
    base_registered registrations
  refine ⟨fun derived base => ⟨walk_derives _ derived base, ?_⟩, ?_, ?_, ?_⟩
  · rw [derives_iff, hbase]
  · exact { refl := assignable_self _, trans := fun _ _ _ => assignable_trans }
  · intro t
    refine ⟨assignable_unknown _ t, eq_unknown_of_assignable, ?_⟩
    rintro rfl
    exact assignable_self _ _
  · intro s t hne
    rw [assignable_both_iff hne, ← hbase]
    unfold OnCircle
    simp only [and_assoc]

-- a class that is registered again leaves the circle in which it lay
example :
    let circle := [("Ping", "Pong"), ("Pong", "Ping")]
    ((registered circle).assignable (.array (.classType "Ping")) (.array (.classType "Pong")) &&
      (registered circle).assignable (.array (.classType "Pong")) (.array (.classType "Ping"))) = true ∧
      (registered (circle ++ [("Pong", "Toy")])).assignable (.classType "Pong") (.classType "Ping") =
        false := by
  decide

end Hierarchy

end CilPatch
