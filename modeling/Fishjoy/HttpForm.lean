import Fishjoy.HttpQuery

namespace Fishjoy
open KeyedMap StringUtil Fields

-- What `PARSE_PARAM` inserts, in its order. The texts are those of `scan`,
-- before `trim` and before they are decoded.
def inserted (flag : UInt8) (trim : List UInt8 → List UInt8) (str : List UInt8) : List Pair :=
  (scan 61 flag str).map fun pair => (UrlDecode true (trim pair.1),UrlDecode true pair.2)

-- The form-urlencoded reading: the segments that contain `=`, each cut at its
-- first one and decoded.
def formPairs (query : List UInt8) : List Pair :=
  (fields 61 38 query).map fun pair => (UrlDecode true pair.1,UrlDecode true pair.2)

theorem parseParam_bare {flag : UInt8} {trim : List UInt8 → List UInt8} (m : MapType) (absent : 61 ∉ str) :
    parseParam flag trim str m = m := by
  rw [parseParam]
  split
  · rfl
  · rename_i found
    rw [(takeWhile_absent absent).2] at found
    cases found

theorem parseParam_inserted (flag : UInt8) (trim : List UInt8 → List UInt8) (str : List UInt8) (m : MapType) :
    parseParam flag trim str m = m.insertAll (inserted flag trim str) := by
  induction str using scanned 61 flag generalizing m with
  | bare str absent =>
      rw [parseParam_bare m absent,inserted,scan_bare absent]
      rfl
  | last key value noEquals noFlag =>
      rw [parseParam_last m noEquals noFlag,inserted,scan_last noEquals noFlag]
      rfl
  | next key value rest noEquals noFlag ih =>
      rw [parseParam_next m noEquals noFlag,ih,inserted,inserted,scan_next noEquals noFlag]
      rfl

theorem inserted_form (keyed : Keyed 61 38 query) : inserted 38 id query = formPairs query := by
  rw [inserted,scan_fields (by decide) keyed]
  rfl

theorem initial_params (version : UInt8) (close : Bool) (query k : List UInt8) :
    ((HttpRequest.initial version close).setQuery query).initQueryParam.params.find k =
      firstValue CaseInsensitiveLess (inserted 38 id query) k := by
  have unparsed : ¬(HttpRequest.initial version close).parserParamFlag &&& 1 ≠ 0 := by
    simp [HttpRequest.initial]
  rw [HttpRequest.initQueryParam,HttpRequest.setQuery,if_neg unparsed]
  simp only [parseParam_inserted,find_insertAll]
  rfl

-- The parameters are those of the reading, and the text of no key runs over
-- the end of a segment.
theorem initQueryParam_form (version : UInt8) (close : Bool) (query : List UInt8) :
    ((∀ k, ((HttpRequest.initial version close).setQuery query).initQueryParam.params.find k =
        firstValue CaseInsensitiveLess (formPairs query) k) ∧
      ∀ pair ∈ scan 61 38 query, 38 ∉ pair.1) ↔ Keyed 61 38 query := by
  constructor
  · rintro ⟨_,within⟩
    exact (scan_exactly (by decide) query).mp within
  · intro keyed
    refine ⟨?_,(scan_exactly (by decide) query).mpr keyed⟩
    intro k
    rw [initial_params,inserted_form keyed]

-- "a&b=c" binds "a&b" to "c", and "b" to nothing.
theorem initQueryParam_runs_on :
    ¬∀ k, ((HttpRequest.initial 0x11 true).setQuery (text "a&b=c")).initQueryParam.params.find k =
      firstValue CaseInsensitiveLess (formPairs (text "a&b=c")) k := by
  intro holds
  have known := holds (text "b")
  have whole : text "a&b=c" = text "a&b" ++ 61 :: text "c" := rfl
  rw [initial_params,inserted,whole,scan_last (by decide) (by decide)] at known
  exact absurd known (by decide)

end Fishjoy
