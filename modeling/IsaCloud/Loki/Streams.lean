import IsaCloud.Support.Grouping
import IsaCloud.Support.JsonInjective
import IsaCloud.Loki.LokiClient

/-!
# The streams of a push

`push_batch` and `_flush_batch` group entries by the JSON text of their labels. The
text does not depend on the order of the labels, and it tells two sets of labels
apart unless they are one once surrogate pairs are joined, as in the payload.
-/

namespace IsaCloud.Loki

set_option autoImplicit false

open Support Support.Text Support.Python Support.Json

abbrev Labels := Dict Str Str

abbrev LokiStream := Group Labels (Str × Str)

/-- `{**self._default_labels, **labels}`. -/
def mergedLabels (c : LokiConfig) (labels : Option Labels) : Labels :=
  c.defaultLabels.putAll ((labels.map Dict.entries).getD [])

def labelText (label : Str × Str) : Str := quoted label.1 ++ colon :: 32 :: quoted label.2

/-- `json.dumps(labels, sort_keys=True)`. -/
def labelsToStr (labels : Labels) : Str :=
  openBrace :: ((lit ", ").intercalate ((labels.entries.insertionSort byKey).map labelText) ++ [closeBrace])

/-! ## The two payloads -/

/-- What a caller gives `push_batch` for an entry; no message is the empty one. -/
structure BatchEntry where
  labels : Option Labels
  message : Option Str
  timestampNs : Option Int

section Payloads
variable (c : LokiConfig)

def BatchEntry.merged (e : BatchEntry) : Labels := mergedLabels c e.labels

/-- `[str(ts), message]`, at this reading of the clock. -/
def BatchEntry.value (e : BatchEntry) (clock : Int) : Str × Str :=
  (intText (LokiState.timestamp e.timestampNs clock), e.message.getD [])

/-- `streams` after the loop of `push_batch`; the clock may be read for every entry. -/
def pushBatchStreams (entries : List (BatchEntry × Int)) : Dict Str LokiStream :=
  entries.foldl (fun streams e =>
    Grouping.add streams (labelsToStr (e.1.merged c)) (e.1.merged c) [e.1.value e.2]) Dict.empty

/-- `streams` after the loop of `_flush_batch`. -/
def flushStreams (batch : List LogEntry) : Dict Str LokiStream :=
  batch.foldl (fun streams e => Grouping.add streams (labelsToStr e.labels) e.labels e.values) Dict.empty

/-- `list(streams.values())`. -/
def payload (streams : Dict Str LokiStream) : List LokiStream := streams.entries.map Prod.snd

end Payloads

/-! ## Equal labels -/

/-- `==` of dicts. -/
def Same (a b : Labels) : Prop := a.entries.Perm b.entries

instance (a b : Labels) : Decidable (Same a b) := inferInstanceAs (Decidable (List.Perm _ _))

/-- A high surrogate before a low one stands for the character that the two encode. -/
def joinLabel (label : Str × Str) : Str × Str := (joinPairs label.1, joinPairs label.2)

/-- The same labels in JSON. -/
def Alike (a b : Labels) : Prop := (a.entries.map joinLabel).Perm (b.entries.map joinLabel)

instance (a b : Labels) : Decidable (Alike a b) := inferInstanceAs (Decidable (List.Perm _ _))

/-- Each label set has one stream, with the values of the entries that have it, in order, and no others. -/
structure Partition {A : Type} (labels : A → Labels) (values : A → List (Str × Str)) (entries : List A)
    (streams : List LokiStream) : Prop where
  distinct : streams.Pairwise fun s t => ¬ Same s.head t.head
  placed : ∀ e ∈ entries, ∃ s ∈ streams, Same s.head (labels e)
  ordered : ∀ s ∈ streams, s.values = (entries.filter fun e => decide (Same s.head (labels e))).flatMap values
  perm : (streams.flatMap fun s => s.values).Perm (entries.flatMap values)

/-- No two entries have different labels that are the same in JSON. -/
def Distinguished {A : Type} (labels : A → Labels) (entries : List A) : Prop :=
  ∀ e ∈ entries, ∀ e' ∈ entries, Alike (labels e) (labels e') → Same (labels e) (labels e')

instance {A : Type} (labels : A → Labels) (entries : List A) : Decidable (Distinguished labels entries) :=
  inferInstanceAs (Decidable (∀ e ∈ entries, ∀ e' ∈ entries, _ → _))

/-! ## The key -/

theorem labelsToStr_of_same {a b : Labels} (h : Same a b) : labelsToStr a = labelsToStr b := by
  rw [labelsToStr, labelsToStr, sort_byKey_eq_of_perm h a.nodup]

theorem labelText_append_injective {label label' : Str × Str} {r r' : Str}
    (h : labelText label ++ r = labelText label' ++ r') : joinLabel label = joinLabel label' ∧ r = r' := by
  rw [labelText, labelText, List.append_assoc, List.append_assoc] at h
  obtain ⟨hkey, hrest⟩ := quoted_append_injective h
  obtain ⟨hvalue, hr⟩ := quoted_append_injective (List.cons.inj (List.cons.inj hrest).2).2
  exact ⟨Prod.ext hkey hvalue, hr⟩

/-- The labels after the first one, and the end of the text. -/
def laterText : List (Str × Str) → Str
  | [] => [closeBrace]
  | label :: labels => lit ", " ++ labelText label ++ laterText labels

theorem intercalate_labels (label : Str × Str) (labels : List (Str × Str)) :
    (lit ", ").intercalate ((label :: labels).map labelText) ++ [closeBrace] = labelText label ++ laterText labels := by
  induction labels generalizing label with
  | nil => simp [laterText]
  | cons label' labels ih =>
    rw [laterText, List.append_assoc, ← ih, List.map_cons, List.map_cons, List.intercalate_cons_cons,
      List.append_assoc, List.append_assoc]

theorem laterText_injective {xs ys : List (Str × Str)} (h : laterText xs = laterText ys) :
    xs.map joinLabel = ys.map joinLabel := by
  induction xs generalizing ys with
  | nil =>
    cases ys with
    | nil => rfl
    | cons y ys => exact absurd (List.cons.inj h).1 (by decide)
  | cons x xs ih =>
    cases ys with
    | nil => exact absurd (List.cons.inj h).1 (by decide)
    | cons y ys =>
      rw [laterText, laterText, List.append_assoc, List.append_assoc, List.append_right_inj] at h
      obtain ⟨hhead, hrest⟩ := labelText_append_injective h
      rw [List.map_cons, List.map_cons, hhead, ih hrest]

theorem alike_of_labelsToStr_eq {a b : Labels} (h : labelsToStr a = labelsToStr b) : Alike a b := by
  have hsorted : (a.entries.insertionSort byKey).map joinLabel = (b.entries.insertionSort byKey).map joinLabel := by
    have htext := (List.cons.inj h).2
    generalize a.entries.insertionSort byKey = xs at htext
    generalize b.entries.insertionSort byKey = ys at htext
    cases xs with
    | nil =>
      cases ys with
      | nil => rfl
      | cons y ys =>
        rw [intercalate_labels] at htext
        exact absurd (List.cons.inj htext).1 (by decide)
    | cons x xs =>
      cases ys with
      | nil =>
        rw [intercalate_labels] at htext
        exact absurd (List.cons.inj htext).1 (by decide)
      | cons y ys =>
        rw [intercalate_labels, intercalate_labels] at htext
        obtain ⟨hhead, hrest⟩ := labelText_append_injective htext
        rw [List.map_cons, List.map_cons, hhead, laterText_injective hrest]
  have ha := (a.entries.perm_insertionSort byKey).map joinLabel
  have hb := (b.entries.perm_insertionSort byKey).map joinLabel
  exact (ha.symm.trans (.of_eq hsorted)).trans hb

/-! ## The partition -/

theorem partition_of_distinguished {A : Type} {labels : A → Labels} {values : A → List (Str × Str)} {entries : List A}
    (h : Distinguished labels entries) :
    Partition labels values entries
      (payload (Grouping.collect (fun e => labelsToStr (labels e)) labels values entries)) := by
  have hkey : ∀ e ∈ entries, ∀ e' ∈ entries,
      labelsToStr (labels e') = labelsToStr (labels e) ↔ Same (labels e) (labels e') := by
    intro e he e' he'
    constructor
    · intro htext
      exact h e he e' he' (alike_of_labelsToStr_eq htext.symm)
    · intro hsame
      exact (labelsToStr_of_same hsame).symm
  constructor
  case distinct =>
    apply List.pairwise_map.mpr
    have hnodup := List.pairwise_map.mp (Grouping.collect (fun e => labelsToStr (labels e)) labels values entries).nodup
    apply hnodup.imp_of_mem
    intro s t hs ht hne hsame
    obtain ⟨a, -, hkeya, hgroupa⟩ := Grouping.mem_collect _ _ _ hs
    obtain ⟨b, -, hkeyb, hgroupb⟩ := Grouping.mem_collect _ _ _ ht
    rw [hgroupa, hgroupb] at hsame
    apply hne
    rw [← hkeya, ← hkeyb]
    exact labelsToStr_of_same hsame
  case placed =>
    intro e he
    obtain ⟨group, hgroup⟩ := Grouping.exists_group (fun e => labelsToStr (labels e)) labels values he
    obtain ⟨a, ha, hk, rfl⟩ := Grouping.mem_collect _ _ _ hgroup
    exact ⟨_, List.mem_map_of_mem hgroup, (hkey a ha e he).mp hk.symm⟩
  case ordered =>
    intro s hs
    obtain ⟨⟨k, group⟩, hmem, rfl⟩ := List.mem_map.mp hs
    obtain ⟨a, ha, hk, rfl⟩ := Grouping.mem_collect _ _ _ hmem
    show (entries.filter _).flatMap values = (entries.filter _).flatMap values
    congr 1
    apply List.filter_congr
    intro e he
    rw [decide_eq_decide, ← hk]
    exact hkey a ha e he
  case perm =>
    rw [payload, List.flatMap_map]
    exact Grouping.collect_perm ..

/-- Both payloads are partitions of their entries by label set. -/
theorem streams_partition (c : LokiConfig) (entries : List (BatchEntry × Int)) (batch : List LogEntry)
    (hentries : Distinguished (fun e => e.1.merged c) entries) (hbatch : Distinguished (fun e => e.labels) batch) :
    Partition (fun e => e.1.merged c) (fun e => [e.1.value e.2]) entries (payload (pushBatchStreams c entries)) ∧
      Partition (fun e => e.labels) (fun e => e.values) batch (payload (flushStreams batch)) :=
  ⟨partition_of_distinguished hentries, partition_of_distinguished hbatch⟩

/-! ## Two pushes -/

def unlabelled : LokiConfig := ⟨100, Dict.empty⟩

def labelled (labels : List (Str × Str)) (message : Str) : BatchEntry :=
  ⟨some (Dict.empty.putAll labels), some message, some 1⟩

def logged (labels : List (Str × Str)) (message : Str) : LogEntry :=
  ⟨0, Dict.empty.putAll labels, [(lit "1", message)]⟩

/-- The same labels in the other order. -/
theorem reordered_labels_share_stream :
    Partition (fun e => e.1.merged unlabelled) (fun e => [e.1.value e.2])
        [(labelled [(lit "app", lit "a"), (lit "env", lit "b")] (lit "up"), 0),
          (labelled [(lit "env", lit "b"), (lit "app", lit "a")] (lit "down"), 0)]
        (payload (pushBatchStreams unlabelled
          [(labelled [(lit "app", lit "a"), (lit "env", lit "b")] (lit "up"), 0),
            (labelled [(lit "env", lit "b"), (lit "app", lit "a")] (lit "down"), 0)])) ∧
      Partition (fun e => e.labels) (fun e => e.values) [logged [(lit "app", lit "a")] (lit "up")]
        (payload (flushStreams [logged [(lit "app", lit "a")] (lit "up")])) :=
  streams_partition unlabelled _ _ (by decide) (by decide)

/-- A character outside the basic plane, and its two surrogates as separate code points. -/
def astral : Str := [0x10000]

def surrogates : Str := [0xd800, 0xdc00]

theorem split_pair_shares_stream :
    ¬ (Partition (fun e => e.1.merged unlabelled) (fun e => [e.1.value e.2])
        [(labelled [(lit "a", surrogates)] (lit "up"), 0), (labelled [(lit "a", astral)] (lit "down"), 0)]
        (payload (pushBatchStreams unlabelled
          [(labelled [(lit "a", surrogates)] (lit "up"), 0), (labelled [(lit "a", astral)] (lit "down"), 0)])) ∧
      Partition (fun e => e.labels) (fun e => e.values)
        [logged [(lit "a", surrogates)] (lit "up"), logged [(lit "a", astral)] (lit "down")]
        (payload (flushStreams [logged [(lit "a", surrogates)] (lit "up"), logged [(lit "a", astral)] (lit "down")]))) := by
  rintro ⟨-, h⟩
  have hone : payload (flushStreams [logged [(lit "a", surrogates)] (lit "up"), logged [(lit "a", astral)] (lit "down")]) =
      [⟨Dict.empty.putAll [(lit "a", surrogates)], [(lit "1", lit "up"), (lit "1", lit "down")]⟩] := by decide
  have hother : ¬ Same (Dict.empty.putAll [(lit "a", surrogates)]) (logged [(lit "a", astral)] (lit "down")).labels := by
    decide
  obtain ⟨s, hs, hsame⟩ := h.placed _ (List.mem_cons_of_mem _ List.mem_cons_self)
  rw [hone] at hs
  cases List.mem_singleton.mp hs
  exact hother hsame

end IsaCloud.Loki
