import IsaCloud.Support.Encoding
import IsaCloud.Support.IsoTime

/-!
# How reading can fail

Every error of `json.loads` is a `JSONDecodeError`, save for a document that nests
deeper than the stack allows and an integer with too many digits. Every error of
the text decoder and of `datetime.fromisoformat` is a `ValueError`.
-/

namespace Support.Json

set_option autoImplicit false

open Text Python Encoding IsoTime

variable {F : Type}

/-- An error of the scanner. -/
def ScanError (e : PyError) : Prop :=
  e.kind = .jsonDecodeError ∨ e = tooManyDigits ∨ e = recursionError

theorem scanError_decode (message : String) : ScanError (decodeError message) := .inl rfl

theorem ScanError.isValueError {e : PyError} (h : ScanError e) :
    e.kind.isValueError = true ∨ e = recursionError := by
  rcases h with h | rfl | h
  · rw [h]
    exact .inl rfl
  · exact .inl rfl
  · exact .inr h

theorem scanUnicode_error {s : Str} {e : PyError} (h : scanUnicode s = .error e) :
    e.kind = .jsonDecodeError := by
  have hlow : ∀ {t : Str} {e : PyError}, scanLowSurrogate t = .error e →
      e.kind = .jsonDecodeError := by
    intro t e h
    unfold scanLowSurrogate at h
    split at h
    · split at h
      · split at h
        · cases h
          rfl
        · cases h
      · cases h
    · cases h
  unfold scanUnicode at h
  split at h
  · cases h
    rfl
  · split at h
    · split at h
      · rename_i hl
        cases h
        exact hlow hl
      · cases h
      · cases h
    · cases h

theorem scanPoint_error {s : Str} {e : PyError} (h : scanPoint s = .error e) :
    e.kind = .jsonDecodeError := by
  have hescape : ∀ {t : Str} {e : PyError}, scanEscape t = .error e →
      e.kind = .jsonDecodeError := by
    intro t e h
    unfold scanEscape at h
    split at h
    · cases h
      rfl
    · split at h
      · exact scanUnicode_error h
      · split at h
        · cases h
        · cases h
          rfl
  unfold scanPoint at h
  split at h
  · cases h
    rfl
  · split at h
    · cases h
    · split at h
      · split at h
        · cases h
        · rename_i he
          cases h
          exact hescape he
      · split at h
        · cases h
          rfl
        · cases h

theorem scanPoints_error {n : Nat} {s : Str} {e : PyError} (h : scanPoints n s = .error e) :
    e.kind = .jsonDecodeError := by
  induction n generalizing s with
  | zero =>
    cases h
    rfl
  | succ n ih =>
    rw [scanPoints] at h
    split at h
    · rename_i hp
      cases h
      exact scanPoint_error hp
    · cases h
    · split at h
      · cases h
      · rename_i hrest
        cases h
        exact ih hrest

section Containers
variable {value : Str → Scan (Json F)} (hvalue : ∀ s e, value s = .error e → ScanError e)
include hvalue

theorem scanElems_error {n : Nat} {s : Str} {e : PyError} (h : scanElems value n s = .error e) :
    ScanError e := by
  induction n generalizing s with
  | zero =>
    cases h
    exact scanError_decode _
  | succ n ih =>
    rw [scanElems] at h
    split at h
    · rename_i hv
      cases h
      exact hvalue _ _ hv
    · split at h
      · cases h
        exact scanError_decode _
      · split at h
        · cases h
        · split at h
          · split at h
            · cases h
            · rename_i hrest
              cases h
              exact ih hrest
          · cases h
            exact scanError_decode _

theorem scanMember_error {s : Str} {e : PyError} (h : scanMember value s = .error e) :
    ScanError e := by
  unfold scanMember at h
  split at h
  · rename_i hk
    cases h
    unfold scanKey at hk
    split at hk
    · cases hk
      exact scanError_decode _
    · split at hk
      · exact .inl (scanPoints_error hk)
      · cases hk
        exact scanError_decode _
  · split at h
    · rename_i hc
      cases h
      unfold scanColon at hc
      split at hc
      · cases hc
        exact scanError_decode _
      · split at hc
        · cases hc
        · cases hc
          exact scanError_decode _
    · split at h
      · rename_i hv
        cases h
        exact hvalue _ _ hv
      · cases h

theorem scanMembers_error {n : Nat} {s : Str} {acc : Members F} {e : PyError}
    (h : scanMembers value n s acc = .error e) : ScanError e := by
  induction n generalizing s acc with
  | zero =>
    cases h
    exact scanError_decode _
  | succ n ih =>
    rw [scanMembers] at h
    split at h
    · rename_i hm
      cases h
      exact scanMember_error hvalue hm
    · split at h
      · cases h
        exact scanError_decode _
      · split at h
        · cases h
        · split at h
          · exact ih h
          · cases h
            exact scanError_decode _

theorem scanArray_error {s : Str} {e : PyError} (h : scanArray value s = .error e) :
    ScanError e := by
  unfold scanArray at h
  split at h
  · cases h
    exact scanError_decode _
  · split at h
    · cases h
    · split at h
      · cases h
      · rename_i he
        cases h
        exact scanElems_error hvalue he

theorem scanObject_error {s : Str} {e : PyError} (h : scanObject value s = .error e) :
    ScanError e := by
  unfold scanObject at h
  split at h
  · cases h
    exact scanError_decode _
  · split at h
    · cases h
    · split at h
      · cases h
      · rename_i he
        cases h
        exact scanMembers_error hvalue he

end Containers

variable [PyFloat F]

theorem scanNumber_error {s : Str} {e : PyError} (h : scanNumber (F := F) s = .error e) :
    ScanError e := by
  unfold scanNumber at h
  split at h
  · cases h
    exact scanError_decode _
  · dsimp only at h
    split at h
    · split at h
      · cases h
        exact .inr (.inl rfl)
      · cases h
    · cases h

theorem scanValueWith_error {nested : Option (Str → Scan (Json F))}
    (hnested : ∀ value, nested = some value → ∀ s e, value s = .error e → ScanError e) {s : Str}
    {e : PyError} (h : scanValueWith nested s = .error e) : ScanError e := by
  unfold scanValueWith at h
  split at h
  · cases h
    exact scanError_decode _
  · split at h
    · split at h
      · cases h
      · rename_i hs
        cases h
        exact .inl (scanPoints_error hs)
    · split at h
      · split at h
        · exact scanObject_error (hnested _ rfl) h
        · cases h
          exact .inr (.inr rfl)
      · split at h
        · split at h
          · exact scanArray_error (hnested _ rfl) h
          · cases h
            exact .inr (.inr rfl)
        · split at h
          · cases h
          · exact scanNumber_error h

theorem scanValue_error {limit : Nat} {s : Str} {e : PyError}
    (h : scanValue (F := F) limit s = .error e) : ScanError e := by
  induction limit generalizing s e with
  | zero => exact scanValueWith_error (fun value hv => by cases hv) h
  | succ limit ih =>
    refine scanValueWith_error (fun value hv s e he => ?_) h
    cases hv
    exact ih he

theorem loads_error {limit : Nat} {s : Str} {e : PyError}
    (h : loads (F := F) limit s = .error e) : ScanError e := by
  unfold loads at h
  split at h
  · cases h
    exact scanError_decode _
  · split at h
    · rename_i hs
      cases h
      exact scanValue_error hs
    · split at h
      · cases h
      · cases h
        exact scanError_decode _

theorem decodeBody_error {bs : Bytes} {e : PyError} (h : decodeBody bs = .error e) : e = decodeFailed := by
  have hutf8 : ∀ {content : Bytes} {e : PyError}, utf8Decode true content = .error e → e = decodeFailed := by
    intro content e h
    unfold utf8Decode at h
    split at h
    · cases h
    · cases h
      rfl
  unfold decodeBody at h
  dsimp only at h
  split at h
  · exact hutf8 h
  · exact hutf8 h
  · split at h
    · cases h
    · cases h
      rfl
  · split at h
    · cases h
    · cases h
      rfl

theorem readText_error {bs : Bytes} {e : PyError} (h : readText bs = .error e) :
    e.kind.isValueError = true := by
  unfold readText utf8Decode at h
  split at h
  · cases h
  · rename_i hd
    split at hd
    · cases hd
    · cases hd
      cases h
      rfl

theorem fromisoformat_error {s : Str} {e : PyError} (h : fromisoformat s = .error e) :
    e.kind.isValueError = true := by
  have hmake : ∀ {d c zone} {e : PyError}, makeDatetime d c zone = .error e →
      e.kind.isValueError = true := by
    intro d c zone e h
    unfold makeDatetime at h
    repeat' split at h
    all_goals
      cases h
      try rfl
  unfold fromisoformat at h
  split at h
  · cases h
    rfl
  · split at h
    · cases h
      rfl
    · split at h
      · cases h
        rfl
      · split at h
        · exact hmake h
        · split at h
          · cases h
            rfl
          · exact hmake h

end Support.Json
