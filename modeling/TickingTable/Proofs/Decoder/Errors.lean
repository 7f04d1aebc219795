import TickingTable.Proofs.Decoder.Apply
import TickingTable.Proofs.Decoder.Frame

/-! Which errors the steps behind the check of a frame can end in. -/

namespace TickingTable

/-- Every error of a computation is one that `P` allows. -/
def Raises {α : Type} (P : ProtocolError → Prop) (x : Except ProtocolError α) : Prop :=
  ∀ e, x = .error e → P e

namespace Raises

variable {α β ε : Type} {P Q : ProtocolError → Prop} {e : ProtocolError}
  {x : Except ProtocolError α}

theorem ok (a : α) : Raises P (.ok a) := by simp [Raises]

theorem error (h : P e) : Raises P (.error e : Except ProtocolError α) := by
  intro e he
  cases he
  exact h

theorem mono (hx : Raises P x) (h : ∀ e, P e → Q e) : Raises Q x :=
  fun e he => h e (hx e he)

theorem bind {g : α → Except ProtocolError β} (hx : Raises P x) (hg : ∀ a, Raises P (g a)) :
    Raises P (x >>= g) := by
  cases x with
  | error e => exact error (hx e rfl)
  | ok a => exact hg a

theorem map (g : α → β) (hx : Raises P x) : Raises P (g <$> x) := by
  cases x with
  | error e => exact error (hx e rfl)
  | ok a => exact ok _

theorem mapError {wrap : ε → ProtocolError} (hw : ∀ e, P (wrap e)) (y : Except ε α) :
    Raises P (y.mapError wrap) := by
  cases y with
  | error e => exact error (hw e)
  | ok a => exact ok _

theorem mapM {g : α → Except ProtocolError β} (hg : ∀ a, Raises P (g a)) (l : List α) :
    Raises P (l.mapM g) := by
  induction l with
  | nil => exact ok _
  | cons a l ih =>
    rw [List.mapM_cons]
    exact bind (hg a) fun _ => bind ih fun _ => ok _

end Raises

/-- Every error of a computation finds fault with something that `P` allows. -/
def Blames {α : Type} (P : Blame → Prop) (x : Except ProtocolError α) : Prop :=
  Raises (fun e => P e.blame) x

namespace ProtocolError

/-- The error finds fault with how many rows a frame brings. -/
def OfRows : ProtocolError → Prop
  | .unevenAddColumns | .tooManyRows _ _ _ => True
  | _ => False

/-- The error finds no fault with a frame, neither with its columns nor with its rows. -/
def SparesFrame (e : ProtocolError) : Prop := e.blame ≠ .frame ∧ ¬ e.OfRows

theorem SparesFrame.of_assembly {e : ProtocolError} (h : e.blame = .assembly) : e.SparesFrame := by
  cases e <;> simp_all [SparesFrame, blame, OfRows]

end ProtocolError

theorem Column.blames_ofArrayResult (a : Except Arrow.ArrayError Arrow.FlatArray) :
    Blames (· = .assembly) (ofArrayResult a) := by
  cases a with
  | error e => exact .error rfl
  | ok a => exact .mapError (by simp [ProtocolError.blame]) _

namespace Table

theorem blames_ofColumnResults (schema : Schema) {columns : Except ProtocolError (List Column)}
    (rows : Nat) (h : Blames (· = .assembly) columns) :
    Blames (· = .assembly) (ofColumnResults schema columns rows) :=
  .bind h fun _ => .mapError (by simp [ProtocolError.blame]) _

theorem blames_removeRows (t : Table) (removed : RowSet) :
    Blames (· = .assembly) (t.removeRows removed) :=
  blames_ofColumnResults _ _ (.mapM (fun _ => Column.blames_ofArrayResult _) _)

theorem blames_insertRows (t : Table) (added : RowSet) (chunks : List (List Column)) :
    Blames (· = .assembly) (t.insertRows added chunks) :=
  blames_ofColumnResults _ _ (.mapM (fun _ => Column.blames_ofArrayResult _) _)

end Table

namespace PendingMessage

theorem blames_start (m : UpdateMetadata) (n : Nat) : Blames (· = .message) (start m n) := by
  unfold start
  split
  · exact .error rfl
  · exact .ok _

theorem blames_deliverMods (index : Nat) (deliveries : List Delivery) (declared : List RowSet)
    (columns : List Column) :
    Blames (· = .message) (deliverMods index deliveries declared columns) := by
  induction deliveries generalizing index declared columns with
  | nil => exact .ok _
  | cons d deliveries ih =>
    cases declared with
    | nil => exact .ok _
    | cons modified declared =>
      cases columns with
      | nil => exact .ok _
      | cons c columns =>
        rw [deliverMods]
        split
        · exact .error rfl
        · exact .bind (ih _ _ _) fun _ => .ok _

theorem blames_absorb (p : PendingMessage) (columns : List Column) :
    Blames (· = .message) (p.absorb columns) := by
  unfold absorb absorbAdds
  split
  · dsimp only
    split
    · exact .error rfl
    · split
      · exact .error rfl
      · split <;> exact .ok _
  · exact .bind (blames_deliverMods _ _ _ _) fun _ => .ok _

end PendingMessage

namespace Decoder

theorem blames_messageOf (d : Decoder) (metadata : Option (List UInt8)) :
    Blames (· = .message) (d.messageOf metadata) := by
  unfold messageOf
  split
  · exact .bind (.mapError (by simp [ProtocolError.blame]) _) fun _ =>
      PendingMessage.blames_start _ _
  · exact .error rfl
  · exact .ok _
  · exact .error rfl

theorem raises_modifyColumns (keys : RowSet) (index : Nat) (declared : List RowSet)
    (deliveries : List Delivery) (columns : List Column) :
    Raises (·.SparesFrame) (modifyColumns keys index declared deliveries columns) := by
  induction declared generalizing index deliveries columns with
  | nil => exact .ok _
  | cons modified declared ih =>
    cases deliveries with
    | nil => exact .ok _
    | cons d deliveries =>
      cases columns with
      | nil => exact .ok _
      | cons base columns =>
        have hput : Raises (·.SparesFrame) (base.interleave d.modChunks
            (overwriteIndices base.size ((keys.positionsOf? modified).getD .empty) d.modChunks)) :=
          (Column.blames_ofArrayResult _).mono fun _ => .of_assembly
        rw [modifyColumns]
        split
        · next positions hpos =>
          rw [hpos, Option.getD_some] at hput
          split
          · exact .bind (.ok _) fun _ => .bind (ih _ _ _) fun _ => .ok _
          · exact .bind (.map _ hput) fun _ => .bind (ih _ _ _) fun _ => .ok _
        · exact .error ⟨by simp [ProtocolError.blame], id⟩

theorem raises_revise (unchanged : Bool) {x : Except ProtocolError Table}
    (h : Blames (· = .assembly) x) : Raises (·.SparesFrame) (revise unchanged x) := by
  cases unchanged with
  | true => exact .ok _
  | false => exact (Raises.map _ h).mono fun _ => .of_assembly

theorem raises_finish (d : Decoder) (p : PendingMessage) (keys removed : RowSet)
    (removal : Revision) (added : RowSet) (addition : Revision) :
    Raises (·.SparesFrame) (d.finish p keys removed removal added addition) :=
  .bind (raises_modifyColumns _ _ _ _ _) fun _ =>
    .bind (raises_revise _ (.mapError (by simp [ProtocolError.blame]) _)) fun _ => .ok _

/-- Applying a complete message finds no fault with any of its frames. -/
theorem raises_apply (d : Decoder) (p : PendingMessage) : Raises (·.SparesFrame) (d.apply p) := by
  rw [apply_eq]
  dsimp only
  split
  · refine .bind (raises_revise _ (Table.blames_removeRows _ _)) fun removal => ?_
    split
    · split
      · exact .error ⟨by simp [ProtocolError.blame], id⟩
      · split
        · exact .bind (raises_revise _ (Table.blames_insertRows _ _ _)) fun addition =>
            raises_finish _ _ _ _ _ _ _
        · exact .error ⟨by simp [ProtocolError.blame], id⟩
    · exact .error ⟨by simp [ProtocolError.blame], id⟩
  · exact .error ⟨by simp [ProtocolError.blame], id⟩

theorem blames_apply (d : Decoder) (p : PendingMessage) : Blames (· ≠ .frame) (d.apply p) :=
  (raises_apply d p).mono fun _ h => h.1

end Decoder
end TickingTable
