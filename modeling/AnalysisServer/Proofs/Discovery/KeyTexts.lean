import AnalysisServer.Discovery.Store
import AnalysisServer.Proofs.Path.Names

namespace AnalysisServer

open List

/-- A list as its joined text shows it: without elements it looks as with an empty one. -/
def shownList (l : List String) : List String :=
  if l = [] then [""] else l

theorem shownList_of_ne_nil {l : List String} (h : l ≠ []) : shownList l = l :=
  if_neg h

theorem filterMap_shownList {α : Type} (f : String → Option α) (h : f "" = none) (l : List String) :
    (shownList l).filterMap f = l.filterMap f := by
  cases l with
  | nil => simp [shownList, h]
  | cons s l => rw [shownList_of_ne_nil (by simp)]

theorem any_shownList (f : String → Bool) (h : f "" = false) (l : List String) : (shownList l).any f = l.any f := by
  cases l with
  | nil => simp [shownList, h]
  | cons s l => rw [shownList_of_ne_nil (by simp)]

section Joined

variable {separator : String} {c : Char} {l l' : List String}

theorem shownList_eq_of_intercalate (hsep : separator.toList = [c]) (h : ∀ s ∈ l, c ∉ s.toList)
    (h' : ∀ s ∈ l', c ∉ s.toList) (he : separator.intercalate l = separator.intercalate l') :
    shownList l = shownList l' := by
  have hsplit {l} (h : ∀ s ∈ l, c ∉ s.toList) :
      Text.split c (separator.intercalate l).toList = (shownList l).map String.toList := by
    rw [String.toList_intercalate, hsep]
    cases l with
    | nil => simp [shownList, Text.split]
    | cons s l =>
      rw [shownList_of_ne_nil (by simp)]
      refine Text.split_intercalate (fun piece hpiece ↦ ?_) (by simp)
      obtain ⟨s', hs', rfl⟩ := mem_map.mp hpiece
      exact h s' hs'
  have hlists : (shownList l).map String.toList = (shownList l').map String.toList := by
    rw [← hsplit h, he, hsplit h']
  exact (map_inj_right (fun _ _ ↦ String.toList_inj.mp)).mp hlists

theorem not_mem_intercalate {c' : Char} (hsep : separator.toList = [c]) (hc : c' ≠ c)
    (h : ∀ s ∈ l, c' ∉ s.toList) : c' ∉ (separator.intercalate l).toList := by
  rw [String.toList_intercalate, hsep]
  induction l with
  | nil => simp
  | cons s l ih =>
    have hs := h s (.head _)
    have hl := ih fun s' hs' ↦ h s' (.tail _ hs')
    cases l with
    | nil => simpa using hs
    | cons s' l => simpa [intercalate_cons_cons, hs, hc] using hl

end Joined

theorem not_mem_toString (n : Nat) : '\x00' ∉ (toString n).toList := by
  rw [Nat.toString_eq_repr, Nat.toList_repr]
  intro h
  exact absurd (Nat.isDigit_of_mem_toDigits (by decide) (by decide) h) (by decide)

theorem toString_inj {n n' : Nat} (h : toString n = toString n') : n = n' := by
  rw [Nat.toString_eq_repr, Nat.toString_eq_repr] at h
  have hdigits : Nat.toDigits 10 n = Nat.toDigits 10 n' := by
    rw [← Nat.toList_repr, h, Nat.toList_repr]
  rw [← @Nat.ofDigitChars_ten_toDigits n, hdigits, Nat.ofDigitChars_ten_toDigits]

namespace DiscoveryContext

/-- The lists of a context hold neither of the characters that separate them in the key text. -/
structure Plain (ctx : DiscoveryContext) : Prop where
  base : '\x00' ∉ ctx.baseDir.text.toList
  given : ∀ l ∈ [ctx.config.exclusions, ctx.config.jsTsExclusions, ctx.config.jsSuffixes,
    ctx.config.tsSuffixes, ctx.config.cssSuffixes, ctx.config.tests], ∀ s ∈ l, ∀ c ∈ [',', '\x00'], c ∉ s.toList

theorem forall_separator {s : String} (h : ',' ∉ s.toList ∧ '\x00' ∉ s.toList) :
    ∀ c ∈ [',', '\x00'], c ∉ s.toList := by
  simpa using h

def lists (ctx : DiscoveryContext) : List (List String) :=
  [ctx.config.exclusionPatterns, ctx.config.jsSuffixes, ctx.config.tsSuffixes, ctx.config.cssSuffixes,
    ctx.config.tests]

variable {ctx : DiscoveryContext}

theorem Plain.lists (h : ctx.Plain) {c : Char} (hc : c ∈ [',', '\x00']) : ∀ l ∈ ctx.lists, ∀ s ∈ l, c ∉ s.toList := by
  have hdefault : ∀ s ∈ defaultExclusions, ',' ∉ s.toList ∧ '\x00' ∉ s.toList := by decide
  intro l hl s hs
  simp only [DiscoveryContext.lists, mem_cons, not_mem_nil, or_false] at hl
  obtain rfl | hl := hl
  · simp only [Configuration.exclusionPatterns, mem_append] at hs
    obtain (hs | hs) | hs := hs
    · exact forall_separator (hdefault s hs) c hc
    · exact h.given _ (by simp) s hs c hc
    · exact h.given _ (by simp) s hs c hc
  · exact h.given l (by simp only [mem_cons, not_mem_nil, or_false]; exact .inr (.inr hl)) s hs c hc

structure Agrees (ctx ctx' : DiscoveryContext) : Prop where
  base : ctx.baseDir = ctx'.baseDir
  exclusions : ctx.config.exclusionPatterns = ctx'.config.exclusionPatterns
  classifier : ctx.config.classifier = ctx'.config.classifier
  fileType : ∀ path base, ctx.config.fileTypeOf path base = ctx'.config.fileTypeOf path base
  limit : ctx.config.maxFileBytes = ctx'.config.maxFileBytes

def pieces (ctx : DiscoveryContext) : List String :=
  ctx.baseDir.text :: ctx.lists.map (",".intercalate ·) ++ [toString ctx.config.maxFileSize.toNat]

theorem discoveryText_eq (ctx : DiscoveryContext) :
    ctx.config.discoveryText ctx.baseDir = "\x00".intercalate ctx.pieces :=
  rfl

theorem Plain.pieces (h : ctx.Plain) : ∀ s ∈ ctx.pieces, '\x00' ∉ s.toList := by
  intro s hs
  simp only [DiscoveryContext.pieces, cons_append, mem_cons, mem_append, mem_map, not_mem_nil, or_false] at hs
  obtain rfl | ⟨l, hl, rfl⟩ | rfl := hs
  · exact h.base
  · exact not_mem_intercalate (c := ',') rfl (by decide) (h.lists (by simp) l hl)
  · exact not_mem_toString _

theorem agrees_of_text {ctx' : DiscoveryContext} (h : ctx.Plain) (h' : ctx'.Plain)
    (he : ctx.config.discoveryText ctx.baseDir = ctx'.config.discoveryText ctx'.baseDir) :
    ctx.Agrees ctx' := by
  rw [discoveryText_eq, discoveryText_eq] at he
  have hpieces := shownList_eq_of_intercalate (c := '\x00') rfl h.pieces h'.pieces he
  rw [shownList_of_ne_nil (by simp [pieces]), shownList_of_ne_nil (by simp [pieces])] at hpieces
  simp only [pieces, lists, map_cons, map_nil, cons_append, nil_append, List.cons.injEq, and_true] at hpieces
  obtain ⟨hbase, hexclusions, hjs, hts, hcss, htests, hlimit⟩ := hpieces
  have hshown {l l'} (hl : l ∈ ctx.lists) (hl' : l' ∈ ctx'.lists)
      (he : ",".intercalate l = ",".intercalate l') : shownList l = shownList l' :=
    shownList_eq_of_intercalate (c := ',') rfl (h.lists (by simp) l hl) (h'.lists (by simp) l' hl') he
  refine ⟨congrArg Path.mk hbase, ?_, ?_, fun path base ↦ ?_, ?_⟩
  · have := hshown (by simp [lists]) (by simp [lists]) hexclusions
    rwa [shownList_of_ne_nil (by simp [Configuration.exclusionPatterns, defaultExclusions]),
      shownList_of_ne_nil (by simp [Configuration.exclusionPatterns, defaultExclusions])] at this
  · have hsuffixes {l l'} (he : shownList l = shownList l') :
        l.filterMap Classifier.cleanSuffix? = l'.filterMap Classifier.cleanSuffix? := by
      rw [← filterMap_shownList _ (by decide) l, he, filterMap_shownList _ (by decide)]
    simp only [Configuration.classifier, Classifier.ofSuffixes,
      hsuffixes (hshown (by simp [lists]) (by simp [lists]) hjs),
      hsuffixes (hshown (by simp [lists]) (by simp [lists]) hts),
      hsuffixes (hshown (by simp [lists]) (by simp [lists]) hcss)]
  · have htests := hshown (by simp [lists]) (by simp [lists]) htests
    simp only [Configuration.fileTypeOf]
    rw [← any_shownList _ (by simp) ctx.config.tests, htests, any_shownList _ (by simp)]
  · rw [Configuration.maxFileBytes, Configuration.maxFileBytes, toString_inj hlimit]

end DiscoveryContext

end AnalysisServer
