import AnalysisServer.Configuration
import AnalysisServer.Proofs.Json.Fields

namespace AnalysisServer

namespace Json

variable {α : Type} {write : α → Json} {read : Json → Option α}

/-- Reading takes back what was written, and a null was not. -/
structure Codec (write : α → Json) (read : Json → Option α) : Prop where
  read_write : ∀ a, read (write a) = some a
  ne_null : ∀ a, write a ≠ null

theorem nat?_ofNat {n greatest : Nat} (h : n ≤ greatest) : nat? greatest (ofNat n) = some n :=
  if_pos h

theorem mapM_map_eq_some_iff {β : Type} {f : α → β} {g : β → Option α} {as : List α} :
    (as.map f).mapM g = some as ↔ ∀ a ∈ as, g (f a) = some a := by
  induction as with
  | nil => simp
  | cons a as ih =>
    rw [List.map_cons, List.mapM_cons, List.forall_mem_cons, ← ih]
    simp [Option.bind_eq_some_iff]

namespace Codec

theorem str : Codec Json.str str? :=
  ⟨fun _ ↦ rfl, nofun⟩

theorem bool : Codec Json.bool bool? :=
  ⟨fun _ ↦ rfl, nofun⟩

theorem uint32 : Codec ofUInt32 uint32? where
  read_write n := by
    rw [uint32?, ofUInt32, nat?_ofNat (Nat.le_sub_one_of_lt n.toNat_lt), Option.map_some]
    exact congrArg some UInt32.ofNat_toNat
  ne_null _ := nofun

theorem uint64 : Codec ofUInt64 uint64? where
  read_write n := by
    rw [uint64?, ofUInt64, nat?_ofNat (Nat.le_sub_one_of_lt n.toNat_lt), Option.map_some]
    exact congrArg some UInt64.ofNat_toNat
  ne_null _ := nofun

theorem list (h : Codec write read) : Codec (ofList write) (listOf read) :=
  ⟨fun _ ↦ mapM_map_eq_some_iff.mpr fun a _ ↦ h.read_write a, nofun⟩

theorem strings : Codec Json.strings strings? :=
  list str

theorem word {table : List (String × α)} {name : α → String} (filler : Filler)
    (h : ∀ a, table.lookup (name a) = some a) : Codec (fun a ↦ .str (name a)) (word? filler table) :=
  ⟨h, nofun⟩

end Codec

section Fields

section

variable (h : Codec write read)

include h

theorem Codec.required (a : α) : required read (some (write a)) = some a :=
  h.read_write a

theorem Codec.withDefault (value a : α) : withDefault value read (some (write a)) = some a :=
  h.read_write a

theorem Codec.nullable (a : α) : nullable read (write a) = some (some a) := by
  have hread := h.read_write a
  have hnull := h.ne_null a
  unfold Json.nullable
  split
  · contradiction
  · rw [hread]
    rfl

theorem Codec.optional (o : Option α) : optional read (some (ofOption write o)) = some o := by
  cases o with
  | none => rfl
  | some a => exact h.nullable a

theorem Codec.omitted (o : Option α) : Json.optional read (o.map write) = some o := by
  cases o with
  | none => rfl
  | some a => exact h.nullable a

end

end Fields

end Json

open Json (Codec)

theorem Path.codec : Codec Path.toJson Path.ofJson? :=
  ⟨fun _ ↦ rfl, nofun⟩

theorem FileType.codec (filler : Json.Filler) : Codec FileType.toJson (Json.word? filler FileType.words) :=
  .word filler fun t ↦ by cases t <;> rfl

theorem Language.codec (filler : Json.Filler) : Codec Language.toJson (Json.word? filler Language.words) :=
  .word filler fun l ↦ by cases l <;> rfl

end AnalysisServer
