import HelixSync.Client.BatchResolution
import HelixSync.Client.BulkHistory
import HelixSync.Lib.FinMap
import Mathlib.Algebra.Order.Floor.Semiring
import Mathlib.Data.List.Sort

/-!
# Paging through the browser's history

`enumerateVisits` (`extension/src/history/bulk.ts`) reads the history of a window page by page.
A search yields the URLs visited before a bound, the latest first, and at most a page of them;
the visits of each are read and passed on. The bound of the next search is the latest visit of
the last URL of the page that is before the bound of this one (`largestBelow`), as far as visits
by the user are concerned.

A bound is exclusive, and so a page may pass over a URL: one that was last visited at the same
time as the last URL of the page, but has no room on it, is on no later page if it was not visited
before; and nor is one that is hidden behind a subframe of the last URL. The enumeration is
complete exactly if no page passes over a URL (`HelixSync.Client.BrowserHistory.complete_iff`).
The device stays connected throughout: if it does not, the enumeration is given up.
-/

namespace HelixSync

namespace Client

open Cutting

/-! ### The browser's history -/

/-- `NON_USER_VISIT_TRANSITIONS`. -/
def nonUserVisitTransitions : List String := ["auto_subframe"]

/-- `chrome.history.VisitItem`. -/
structure HistoryVisit where
  visitTime : Option ℚ
  transition : Option String
  deriving DecidableEq

/-- `chrome.history.HistoryItem`, with the visits `chrome.history.getVisits` yields for the URL.
`lastVisitTime` is the overall last visit, in whatever window the item was searched for. -/
structure HistoryItem where
  page : HistoryPage
  lastVisitTime : Option ℚ
  visits : List HistoryVisit
  le_lastVisitTime : ∀ visit ∈ visits, ∀ time ∈ visit.visitTime, ∀ last ∈ lastVisitTime, time ≤ last
  deriving DecidableEq

namespace HistoryItem

variable (item : HistoryItem)

/-- When the URL was visited in a range, by the user or not. -/
def timesIn (start stop : ℚ) : List ℚ :=
  (item.visits.filterMap HistoryVisit.visitTime).filter fun time => start ≤ time ∧ time < stop

/-- The latest visit in a range. -/
def latestIn (start stop : ℚ) : ℚ := (item.timesIn start stop).foldl max start

/-- When the user visited the URL in a range. -/
def userTimesIn (start stop : ℚ) : List ℚ :=
  ((item.visits.filter fun visit => visit.transition ≠ some "auto_subframe").filterMap
    HistoryVisit.visitTime).filter fun time => start ≤ time ∧ time < stop

end HistoryItem

/-- The history of the browser, in the order in which URLs last visited at the same time are
listed. -/
structure BrowserHistory where
  items : List HistoryItem
  nodup : (items.map fun item => item.page.url).Nodup
  url_ne_empty : ∀ item ∈ items, item.page.url ≠ ""

/-- `chrome.history.search` for any text: the URLs visited in `[startTime, endTime)`, the latest
first, and no more than `maxResults`. -/
def BrowserHistory.search (h : BrowserHistory) (startTime endTime : ℚ) (maxResults : ℕ) :
    List HistoryItem :=
  ((h.items.filter fun item => item.timesIn startTime endTime ≠ []).insertionSort fun a b =>
    b.latestIn startTime endTime ≤ a.latestIn startTime endTime).take maxResults

/-- The visits the user made in a range. -/
def BrowserHistory.userVisits (h : BrowserHistory) (start stop : ℚ) : List (HistoryPage × ℚ) :=
  h.items.flatMap fun item => (item.userTimesIn start stop).map fun time => (item.page, time)

/-! ### Enumerating it -/

/-- The loop of `largestBelow`, with `stop` for `hi + 1`. -/
def largestBelowBetween (sorted : List ℚ) (bound : ℚ) : ℕ → ℕ → ℕ → Option ℚ → Option ℚ
  | 0, _, _, result => result
  | rounds + 1, lo, stop, result =>
    if lo < stop then
      let mid := (lo + (stop - 1)) / 2
      match sorted[mid]? with
      | none => result
      | some value =>
        if value < bound then largestBelowBetween sorted bound rounds (mid + 1) stop (some value)
        else largestBelowBetween sorted bound rounds lo mid result
    else result

/-- `largestBelow`. -/
def largestBelow (sorted : List ℚ) (bound : ℚ) : Option ℚ :=
  largestBelowBetween sorted bound sorted.length 0 sorted.length none

/-- The variables of the paging loop, with the groups passed to `pushGroup` so far. -/
structure Paging where
  queryEndTime : ℚ
  urlTimes : FinMap String (List ℚ)
  stream : List CollectedGroup

/-- How a round of the paging loop ends: with an error, with the last page, or with another
page to come. -/
inductive PageEnd where
  | threw
  | last (p : Paging)
  | more (p : Paging)

/-- The time of a visit that is collected. -/
def collectedTime (cutoffMs endMs : ℚ) (visit : HistoryVisit) : Option ℚ :=
  match visit.visitTime with
  | none => none
  | some visitTime =>
    if visitTime < cutoffMs ∨ endMs ≤ visitTime then none
    else if visit.transition.getD "" ∈ nonUserVisitTransitions then none
    else some visitTime

/-- The `times` of a URL, sorted. -/
def HistoryItem.times (item : HistoryItem) (cutoffMs endMs : ℚ) : List ℚ :=
  (item.visits.filterMap (collectedTime cutoffMs endMs)).insertionSort (· ≤ ·)

namespace Paging

variable (cutoffMs endMs : ℚ)

/-- The times of a URL are kept, and passed to `pushGroup` if there are any. -/
def collect (p : Paging) (item : HistoryItem) : Paging :=
  let times := item.times cutoffMs endMs
  { p with
    urlTimes := p.urlTimes.insert item.page.url times
    stream := if times = [] then p.stream else p.stream ++ [⟨item.page, times⟩] }

/-- One slice of a page. The URLs that are new are entered before their visits are read. -/
def takeSlice (p : Paging) (slice : List HistoryItem) : Paging :=
  let inWindow := slice.filter fun item =>
    item.page.url ≠ "" ∧ p.urlTimes.get item.page.url = none ∧
      ∀ last ∈ item.lastVisitTime, cutoffMs ≤ last
  inWindow.foldl (collect cutoffMs endMs) { p with
    urlTimes := inWindow.foldl (fun urlTimes item => urlTimes.insert item.page.url []) p.urlTimes }

end Paging

/-- `BULK_URL_CONCURRENCY`. -/
def bulkUrlConcurrency : ℕ := 10

namespace BrowserHistory

variable (h : BrowserHistory) (pageSize : ℕ) (cutoffMs endMs : ℚ)

/-- One round of the paging loop. An empty page that counts as full has no last item, which is
an error. -/
def pageStep (p : Paging) : PageEnd :=
  let items := h.search cutoffMs p.queryEndTime pageSize
  let taken := (chunks bulkUrlConcurrency items).foldl (Paging.takeSlice cutoffMs endMs) p
  if items.length < pageSize then .last taken
  else
    match items.getLast? with
    | none => .threw
    | some lastItem =>
      let lastItemTimes :=
        if lastItem.page.url = "" then [] else (taken.urlTimes.get lastItem.page.url).getD []
      let nextQueryEndTime :=
        (largestBelow lastItemTimes p.queryEndTime).getD (p.queryEndTime - 1)
      if nextQueryEndTime < p.queryEndTime then
        .more { taken with queryEndTime := nextQueryEndTime }
      else .last taken

/-- The paging loop: nothing if it throws, or needs more rounds. -/
def pages : ℕ → Paging → Option Paging
  | 0, _ => none
  | rounds + 1, p =>
    match h.pageStep pageSize cutoffMs endMs p with
    | .threw => none
    | .last taken => some taken
    | .more next => pages rounds next

/-- What is passed to `pushGroup`. -/
def visitStream (rounds : ℕ) : Option (List CollectedGroup) :=
  (h.pages pageSize cutoffMs endMs rounds ⟨endMs, .empty, []⟩).map Paging.stream

/-- `enumerateVisits`: the segments passed to `onSegment`. -/
def enumerateVisits (limits : BulkLimits) (skip rounds : ℕ) : Option (List (List CollectedGroup)) :=
  (h.visitStream pageSize cutoffMs endMs rounds).map (Client.enumerateVisits limits skip)

/-- **The enumeration is complete**: it stops, the stream is every visit of the user in the window
once, and all but the first `skip` of the stream are passed on, in segments of which only the
last may not be full. -/
def Complete (limits : BulkLimits) (skip : ℕ) : Prop :=
  ∃ rounds stream segments, h.visitStream pageSize cutoffMs endMs rounds = some stream ∧
    h.enumerateVisits pageSize cutoffMs endMs limits skip rounds = some segments ∧
    (itemsOf stream).Perm (h.userVisits cutoffMs endMs) ∧
    segments.flatMap itemsOf = (itemsOf stream).drop skip ∧
    (∀ segment ∈ segments.dropLast, count segment = limits.segmentVisits) ∧
    ∀ segment ∈ segments, 0 < count segment ∧ count segment ≤ limits.segmentVisits

/-! ### The pages of a history -/

/-- The bound of the page after one that ends with `last`. -/
def nextBound (last : HistoryItem) (bound : ℚ) : ℚ :=
  ((last.userTimesIn cutoffMs endMs).filter (· < bound)).max?.getD (bound - 1)

/-- The URLs that have been listed when the bound is reached. -/
inductive Turned : List HistoryItem → ℚ → Prop
  | start : Turned [] endMs
  | turn {listed : List HistoryItem} {bound : ℚ} {last : HistoryItem} (h' : Turned listed bound)
      (hfull : (h.search cutoffMs bound pageSize).length = pageSize)
      (hlast : (h.search cutoffMs bound pageSize).getLast? = some last) :
      Turned (listed ++ h.search cutoffMs bound pageSize) (nextBound cutoffMs endMs last bound)

/-- No page passes over a URL: one that the user visited in the window and that has not been
listed was visited before the bound. -/
def PassesOverNone : Prop :=
  ∀ listed bound, h.Turned pageSize cutoffMs endMs listed bound → ∀ item ∈ h.items,
    item.userTimesIn cutoffMs endMs ≠ [] → item ∉ listed → item.timesIn cutoffMs bound ≠ []

end BrowserHistory

/-! ### What a search yields -/

section Search

variable {h : BrowserHistory} {start stop : ℚ} {max : ℕ} {item : HistoryItem}

/-- What is found has been visited in the range, -/
theorem mem_of_mem_search (hitem : item ∈ h.search start stop max) :
    item ∈ h.items ∧ item.timesIn start stop ≠ [] := by
  have hfound := (List.mem_insertionSort _).mp (List.mem_of_mem_take hitem)
  exact ⟨List.mem_of_mem_filter hfound, by simpa using (List.mem_filter.mp hfound).2⟩

/-- and if there is room for more, everything visited in the range is found. -/
theorem mem_search_of_length_lt (hshort : (h.search start stop max).length < max)
    (hitem : item ∈ h.items) (hvisited : item.timesIn start stop ≠ []) :
    item ∈ h.search start stop max := by
  rw [BrowserHistory.search, List.length_take] at hshort
  rw [BrowserHistory.search, List.take_of_length_le (by omega), List.mem_insertionSort]
  exact List.mem_filter.mpr ⟨hitem, by simpa using hvisited⟩

theorem items_nodup (h : BrowserHistory) : h.items.Nodup := h.nodup.of_map _

theorem search_nodup (h : BrowserHistory) (start stop : ℚ) (max : ℕ) :
    (h.search start stop max).Nodup :=
  (((List.perm_insertionSort _ _).nodup_iff.mpr ((items_nodup h).filter _)).sublist
    (List.take_sublist _ _))

theorem length_search_le (h : BrowserHistory) (start stop : ℚ) (max : ℕ) :
    (h.search start stop max).length ≤ max :=
  (List.length_take_le _ _)

/-- A URL is listed once. -/
theorem eq_of_url_eq {item' : HistoryItem} (hitem : item ∈ h.items) (hitem' : item' ∈ h.items)
    (hurl : item.page.url = item'.page.url) : item = item' :=
  List.inj_on_of_nodup_map h.nodup hitem hitem' hurl

end Search

/-! ### The times of a URL -/

section Times

variable (item : HistoryItem) (cutoffMs endMs : ℚ)

theorem collectedTime_eq (visit : HistoryVisit) : collectedTime cutoffMs endMs visit =
    (if visit.transition ≠ some "auto_subframe" then visit.visitTime else none).filter
      fun time => cutoffMs ≤ time ∧ time < endMs := by
  obtain ⟨time, transition⟩ := visit
  have hframe : transition.getD "" ∈ nonUserVisitTransitions ↔
      transition = some "auto_subframe" := by
    cases transition <;> simp [nonUserVisitTransitions]
  rcases time with _ | time
  · simp [collectedTime]
  have hwindow : (time < cutoffMs ∨ endMs ≤ time) ↔ ¬(cutoffMs ≤ time ∧ time < endMs) := by
    rw [not_and_or, not_le, not_lt]
  simp only [collectedTime, hframe, hwindow, Option.filter]
  split_ifs <;> simp_all

/-- What is collected is what the user visited in the window. -/
theorem filterMap_collectedTime :
    item.visits.filterMap (collectedTime cutoffMs endMs) = item.userTimesIn cutoffMs endMs := by
  rw [HistoryItem.userTimesIn, List.filterMap_filter, List.filter_filterMap]
  refine List.filterMap_congr fun visit _ => ?_
  rw [collectedTime_eq]
  simp only [decide_eq_true_eq]

theorem times_perm : (item.times cutoffMs endMs).Perm (item.userTimesIn cutoffMs endMs) := by
  rw [← filterMap_collectedTime]
  exact List.perm_insertionSort _ _

theorem times_sorted : (item.times cutoffMs endMs).Pairwise (· ≤ ·) :=
  List.pairwise_insertionSort _ _

theorem mem_timesIn {time : ℚ} : time ∈ item.timesIn cutoffMs endMs ↔
    (∃ visit ∈ item.visits, visit.visitTime = some time) ∧ cutoffMs ≤ time ∧ time < endMs := by
  simp [HistoryItem.timesIn]

end Times

/-! ### The largest value below a bound -/

section LargestBelow

variable {sorted : List ℚ} {bound : ℚ}

/-- The values below the bound are those left of a place where it falls. -/
theorem filter_lt_eq_take {lo : ℕ} (hleft : ∀ i (h : i < sorted.length), i < lo → sorted[i] < bound)
    (hright : ∀ i (h : i < sorted.length), lo ≤ i → bound ≤ sorted[i]) :
    sorted.filter (· < bound) = sorted.take lo := by
  have htake : (sorted.take lo).filter (· < bound) = sorted.take lo := by
    refine List.filter_eq_self.mpr fun value hvalue => ?_
    obtain ⟨i, hi, rfl⟩ := List.getElem_of_mem hvalue
    rw [List.length_take] at hi
    simpa using hleft i (by omega) (by omega)
  have hdrop : (sorted.drop lo).filter (· < bound) = [] := by
    refine List.filter_eq_nil_iff.mpr fun value hvalue => ?_
    obtain ⟨i, hi, rfl⟩ := List.getElem_of_mem hvalue
    rw [List.length_drop] at hi
    simpa using hright (lo + i) (by omega) (by omega)
  conv_lhs => rw [← List.take_append_drop lo sorted, List.filter_append, htake, hdrop,
    List.append_nil]

/-- What is left of the interval is below the bound, what is right of it is not, and the result
so far is the last value on the left. -/
theorem largestBelowBetween_spec (hsorted : sorted.Pairwise (· ≤ ·)) {rounds lo stop : ℕ}
    (hrounds : stop - lo ≤ rounds) (hle : lo ≤ stop) (hstop : stop ≤ sorted.length)
    (hleft : ∀ i (h : i < sorted.length), i < lo → sorted[i] < bound)
    (hright : ∀ i (h : i < sorted.length), stop ≤ i → bound ≤ sorted[i]) :
    largestBelowBetween sorted bound rounds lo stop (sorted.take lo).getLast? =
      (sorted.filter (· < bound)).getLast? := by
  induction rounds generalizing lo stop with
  | zero =>
    obtain rfl : lo = stop := by omega
    rw [largestBelowBetween, filter_lt_eq_take hleft hright]
  | succ rounds ih =>
    rw [largestBelowBetween]
    by_cases hlt : lo < stop
    · have hmid : (lo + (stop - 1)) / 2 < sorted.length := by omega
      rw [if_pos hlt]
      dsimp only
      rw [List.getElem?_eq_getElem hmid]
      dsimp only
      split_ifs with hbelow
      · have hlast : (sorted.take ((lo + (stop - 1)) / 2 + 1)).getLast? =
            some sorted[(lo + (stop - 1)) / 2] := by
          rw [List.take_add_one, List.getElem?_eq_getElem hmid, Option.toList_some,
            List.getLast?_concat]
        rw [← hlast]
        refine ih (by omega) (by omega) hstop (fun i h hi => ?_) hright
        rcases Nat.lt_or_ge i ((lo + (stop - 1)) / 2) with hless | hge
        · exact (List.pairwise_iff_getElem.mp hsorted i _ h hmid hless).trans_lt hbelow
        · obtain rfl : i = (lo + (stop - 1)) / 2 := by omega
          exact hbelow
      · refine ih (by omega) (by omega) hmid.le hleft fun i h hi => ?_
        rcases Nat.lt_or_ge ((lo + (stop - 1)) / 2) i with hmore | hge
        · exact (not_lt.mp hbelow).trans (List.pairwise_iff_getElem.mp hsorted _ i hmid h hmore)
        · obtain rfl : i = (lo + (stop - 1)) / 2 := by omega
          exact not_lt.mp hbelow
    · obtain rfl : lo = stop := by omega
      rw [if_neg hlt, filter_lt_eq_take hleft hright]

theorem largestBelow_eq_getLast? (hsorted : sorted.Pairwise (· ≤ ·)) (bound : ℚ) :
    largestBelow sorted bound = (sorted.filter (· < bound)).getLast? :=
  largestBelowBetween_spec hsorted (Nat.sub_zero _).le (Nat.zero_le _) le_rfl
    (fun _ _ h => absurd h (Nat.not_lt_zero _)) (fun _ h hle => absurd h (not_lt.mpr hle))

/-- **The largest value below a bound** is the greatest of those below it, in whatever order they
are given. -/
theorem largestBelow_eq (hsorted : sorted.Pairwise (· ≤ ·)) {values : List ℚ}
    (hperm : sorted.Perm values) (bound : ℚ) :
    largestBelow sorted bound = (values.filter (· < bound)).max? := by
  rw [largestBelow_eq_getLast? hsorted]
  have hperm' := hperm.filter (· < bound)
  rcases hlast : (sorted.filter (· < bound)).getLast? with _ | value
  · rw [List.getLast?_eq_none_iff] at hlast
    rw [hlast, List.nil_perm] at hperm'
    rw [hperm', List.max?_nil]
  · symm
    rw [List.max?_eq_some_iff]
    obtain ⟨front, hfront⟩ := List.getLast?_eq_some_iff.mp hlast
    refine ⟨hperm'.mem_iff.mp (List.mem_of_getLast? hlast), fun other hother => ?_⟩
    have hordered := (hsorted.filter (· < bound))
    rw [hfront, List.pairwise_append] at hordered
    rw [← hperm'.mem_iff, hfront] at hother
    rcases List.mem_append.mp hother with hother | hother
    · exact hordered.2.2 _ hother _ (List.mem_singleton_self _)
    · exact (List.mem_singleton.mp hother).le

end LargestBelow

/-! ### Taking a page -/

theorem visited_append (groups groups' : List CollectedGroup) :
    visited (groups ++ groups') = visited groups ++ visited groups' := List.filter_append _ _

theorem itemsOf_visited (groups : List CollectedGroup) :
    itemsOf (visited groups) = itemsOf groups := by
  induction groups with
  | nil => rfl
  | cons g groups ih =>
    rw [visited, List.filter_cons, ← visited]
    split
    · rw [itemsOf_cons, itemsOf_cons, ih]
    · rename_i hnil
      have hnil' : g.items = [] := by simpa using hnil
      rw [itemsOf_cons, ih, hnil', List.map_nil, List.nil_append]

/-- What is passed to `pushGroup` for a URL, if the user visited it. -/
def HistoryItem.group (item : HistoryItem) (cutoffMs endMs : ℚ) : CollectedGroup :=
  ⟨item.page, item.times cutoffMs endMs⟩

namespace Paging

variable {h : BrowserHistory} {cutoffMs endMs : ℚ} {p : Paging} {seen items : List HistoryItem}

/-- These URLs, and no others, have been taken. -/
structure Walked (h : BrowserHistory) (cutoffMs endMs : ℚ) (seen : List HistoryItem) (p : Paging) :
    Prop where
  mem : ∀ item ∈ seen, item ∈ h.items
  nodup : seen.Nodup
  times : ∀ item ∈ seen, p.urlTimes.get item.page.url = some (item.times cutoffMs endMs)
  unseen : ∀ item ∈ h.items, item ∉ seen → p.urlTimes.get item.page.url = none
  stream : p.stream = visited (seen.map fun item => item.group cutoffMs endMs)

theorem Walked.start (h : BrowserHistory) (cutoffMs endMs : ℚ) :
    Walked h cutoffMs endMs [] ⟨endMs, .empty, []⟩ where
  mem := fun _ hitem => absurd hitem List.not_mem_nil
  nodup := List.nodup_nil
  times := fun _ hitem => absurd hitem List.not_mem_nil
  unseen := fun _ _ _ => rfl
  stream := rfl

theorem Walked.itemsOf_stream (hw : Walked h cutoffMs endMs seen p) :
    itemsOf p.stream =
      seen.flatMap fun item => (item.times cutoffMs endMs).map fun time => (item.page, time) := by
  rw [hw.stream, itemsOf_visited, itemsOf, List.flatMap_map]
  rfl

theorem queryEndTime_foldl_collect (items : List HistoryItem) (p : Paging) :
    (items.foldl (collect cutoffMs endMs) p).queryEndTime = p.queryEndTime := by
  induction items generalizing p with
  | nil => rfl
  | cons item items ih => exact ih _

theorem stream_foldl_collect (items : List HistoryItem) (p : Paging) :
    (items.foldl (collect cutoffMs endMs) p).stream =
      p.stream ++ visited (items.map fun item => item.group cutoffMs endMs) := by
  induction items generalizing p with
  | nil => exact (List.append_nil _).symm
  | cons item items ih =>
    rw [List.foldl_cons, ih, visited, visited, List.map_cons, List.filter_cons]
    by_cases hnil : item.times cutoffMs endMs = []
    · simp [collect, HistoryItem.group, hnil]
    · simp [collect, HistoryItem.group, hnil]

theorem get_foldl_collect_of_notMem {url : String} (items : List HistoryItem) (p : Paging)
    (hurl : ∀ item ∈ items, item.page.url ≠ url) :
    (items.foldl (collect cutoffMs endMs) p).urlTimes.get url = p.urlTimes.get url := by
  induction items generalizing p with
  | nil => rfl
  | cons item items ih =>
    have hrest := fun other hother => hurl other (List.mem_cons_of_mem _ hother)
    rw [List.foldl_cons, ih _ hrest, collect]
    exact (FinMap.get_insert _ _ _ _).trans (if_neg (hurl item List.mem_cons_self).symm)

theorem get_foldl_collect_of_mem {item : HistoryItem} (items : List HistoryItem) (p : Paging)
    (hitems : ∀ item ∈ items, item ∈ h.items) (hnodup : items.Nodup) (hitem : item ∈ items) :
    (items.foldl (collect cutoffMs endMs) p).urlTimes.get item.page.url =
      some (item.times cutoffMs endMs) := by
  induction items generalizing p with
  | nil => exact absurd hitem List.not_mem_nil
  | cons first items ih =>
    obtain ⟨hfirst, hrest⟩ := List.nodup_cons.mp hnodup
    rw [List.foldl_cons]
    rcases List.mem_cons.mp hitem with rfl | hmem
    · rw [get_foldl_collect_of_notMem, collect]
      · exact (FinMap.get_insert _ _ _ _).trans (if_pos rfl)
      · intro other hother hurl
        have heq := eq_of_url_eq (hitems other (List.mem_cons_of_mem _ hother))
          (hitems item List.mem_cons_self) hurl
        exact hfirst (heq ▸ hother)
    · exact ih _ (fun other hother => hitems other (List.mem_cons_of_mem _ hother)) hrest hmem

theorem get_foldl_reserve_of_notMem {url : String} (items : List HistoryItem)
    (urlTimes : FinMap String (List ℚ)) (hurl : ∀ item ∈ items, item.page.url ≠ url) :
    (items.foldl (fun urlTimes item => urlTimes.insert item.page.url []) urlTimes).get url =
      urlTimes.get url := by
  induction items generalizing urlTimes with
  | nil => rfl
  | cons item items ih =>
    rw [List.foldl_cons, ih _ fun other hother => hurl other (List.mem_cons_of_mem _ hother),
      FinMap.get_insert, if_neg (hurl item List.mem_cons_self).symm]

/-- A slice of the page is taken: the URLs in it that are new are seen then. -/
theorem Walked.takeSlice (hw : Walked h cutoffMs endMs seen p) {slice : List HistoryItem}
    (hslice : ∀ item ∈ slice, item ∈ h.items ∧ ∃ stop, item.timesIn cutoffMs stop ≠ [])
    (hnodup : slice.Nodup) : ∃ fresh, (∀ item ∈ fresh, item ∈ slice) ∧
      (∀ item ∈ slice, item ∈ seen ++ fresh) ∧
      Walked h cutoffMs endMs (seen ++ fresh) (p.takeSlice cutoffMs endMs slice) := by
  rw [Paging.takeSlice]
  set fresh := slice.filter fun item => item.page.url ≠ "" ∧ p.urlTimes.get item.page.url = none ∧
    ∀ last ∈ item.lastVisitTime, cutoffMs ≤ last with hfresh
  have hmem : ∀ item ∈ fresh, item ∈ slice := fun item hitem => List.mem_of_mem_filter hitem
  have hitems : ∀ item ∈ fresh, item ∈ h.items :=
    fun item hitem => (hslice item (hmem item hitem)).1
  have hnew : ∀ item ∈ fresh, item ∉ seen := by
    intro item hitem hseen
    have hnone : p.urlTimes.get item.page.url = none := by
      simpa using (of_decide_eq_true (List.mem_filter.mp hitem).2).2.1
    rw [hw.times item hseen] at hnone
    cases hnone
  have hnodup' : fresh.Nodup := hnodup.filter _
  refine ⟨fresh, hmem, fun item hitem => ?_, ?_⟩
  · by_cases hseen : item ∈ seen
    · exact List.mem_append_left _ hseen
    obtain ⟨hlisted, stop, hvisited⟩ := hslice item hitem
    refine List.mem_append_right _ (List.mem_filter.mpr ⟨hitem, decide_eq_true ⟨?_, ?_, ?_⟩⟩)
    · exact h.url_ne_empty item hlisted
    · exact hw.unseen item hlisted hseen
    · -- the overall last visit is not before the one it was found by
      intro last hlast
      obtain ⟨time, htime⟩ := List.exists_mem_of_ne_nil _ hvisited
      obtain ⟨⟨visit, hvisit, hsome⟩, hcutoff, -⟩ := (mem_timesIn item cutoffMs stop).mp htime
      exact hcutoff.trans (item.le_lastVisitTime visit hvisit time hsome last hlast)
  · have hother : ∀ item ∈ h.items, item ∉ fresh →
        ∀ other ∈ fresh, other.page.url ≠ item.page.url :=
      fun item hitem hnot other hmem hurl =>
        hnot (eq_of_url_eq (hitems other hmem) hitem hurl ▸ hmem)
    have hkept : ∀ item ∈ h.items, item ∉ fresh →
        (fresh.foldl (collect cutoffMs endMs) { p with
          urlTimes := fresh.foldl (fun urlTimes item => urlTimes.insert item.page.url [])
            p.urlTimes }).urlTimes.get item.page.url = p.urlTimes.get item.page.url := by
      intro item hitem hnot
      rw [get_foldl_collect_of_notMem _ _ (hother item hitem hnot)]
      exact get_foldl_reserve_of_notMem _ _ (hother item hitem hnot)
    constructor
    · intro item hitem
      exact (List.mem_append.mp hitem).elim (hw.mem item) (hitems item)
    · exact hw.nodup.append hnodup' fun item hseen hitem => hnew item hitem hseen
    · intro item hitem
      rcases List.mem_append.mp hitem with hseen | hitem
      · rw [hkept item (hw.mem item hseen) fun hitem => hnew item hitem hseen, hw.times item hseen]
      · exact get_foldl_collect_of_mem _ _ hitems hnodup' hitem
    · intro item hitem hnot
      rw [List.mem_append, not_or] at hnot
      rw [hkept item hitem hnot.2, hw.unseen item hitem hnot.1]
    · rw [stream_foldl_collect, List.map_append, visited_append]
      exact congrArg (· ++ _) hw.stream

theorem queryEndTime_takeSlice (p : Paging) (slice : List HistoryItem) :
    (p.takeSlice cutoffMs endMs slice).queryEndTime = p.queryEndTime :=
  queryEndTime_foldl_collect _ _

/-- All slices are taken. -/
theorem Walked.takeSlices (hw : Walked h cutoffMs endMs seen p) {slices : List (List HistoryItem)}
    (hslices : ∀ item ∈ slices.flatten, item ∈ h.items ∧ ∃ stop, item.timesIn cutoffMs stop ≠ [])
    (hnodup : slices.flatten.Nodup) : ∃ fresh, (∀ item ∈ fresh, item ∈ slices.flatten) ∧
      (∀ item ∈ slices.flatten, item ∈ seen ++ fresh) ∧
      Walked h cutoffMs endMs (seen ++ fresh)
        (slices.foldl (Paging.takeSlice cutoffMs endMs) p) ∧
      (slices.foldl (Paging.takeSlice cutoffMs endMs) p).queryEndTime = p.queryEndTime := by
  induction slices generalizing seen p with
  | nil =>
    refine ⟨[], nofun, nofun, ?_, rfl⟩
    rw [List.append_nil]
    exact hw
  | cons slice slices ih =>
    rw [List.flatten_cons] at hslices hnodup ⊢
    obtain ⟨hslice, hrest, -⟩ := List.nodup_append.mp hnodup
    obtain ⟨fresh, hfresh, hall, hw'⟩ := hw.takeSlice
      (fun item hitem => hslices item (List.mem_append_left _ hitem)) hslice
    obtain ⟨fresh', hfresh', hall', hw'', hend⟩ := ih hw'
      (fun item hitem => hslices item (List.mem_append_right _ hitem)) hrest
    refine ⟨fresh ++ fresh', fun item hitem => ?_, fun item hitem => ?_, ?_, ?_⟩
    · rcases List.mem_append.mp hitem with hitem | hitem
      · exact List.mem_append_left _ (hfresh item hitem)
      · exact List.mem_append_right _ (hfresh' item hitem)
    · rw [← List.append_assoc]
      rcases List.mem_append.mp hitem with hitem | hitem
      · exact List.mem_append_left _ (hall item hitem)
      · exact hall' item hitem
    · rw [← List.append_assoc]
      exact hw''
    · rw [List.foldl_cons, hend, queryEndTime_takeSlice]

end Paging

namespace BrowserHistory

variable {h : BrowserHistory} {pageSize : ℕ} {cutoffMs endMs bound : ℚ} {listed : List HistoryItem}
  {last item : HistoryItem} {p : Paging}

/-! ### The loop turns the pages -/

/-- The next bound is an earlier one. -/
theorem nextBound_lt : nextBound cutoffMs endMs last bound < bound := by
  rw [nextBound]
  rcases hmax : ((last.userTimesIn cutoffMs endMs).filter (· < bound)).max? with _ | time
  · exact sub_one_lt bound
  · exact of_decide_eq_true (List.mem_filter.mp (List.max?_mem hmax)).2

/-- The loop is where the pages are. -/
structure Turns (h : BrowserHistory) (cutoffMs endMs : ℚ) (listed : List HistoryItem) (bound : ℚ)
    (p : Paging) : Prop where
  walked : ∃ seen, p.Walked h cutoffMs endMs seen ∧ ∀ item, item ∈ seen ↔ item ∈ listed
  queryEndTime : p.queryEndTime = bound

theorem Turns.start (h : BrowserHistory) (cutoffMs endMs : ℚ) :
    Turns h cutoffMs endMs [] endMs ⟨endMs, .empty, []⟩ :=
  ⟨⟨[], .start h cutoffMs endMs, fun _ => Iff.rfl⟩, rfl⟩

/-- The URLs of the page are taken. -/
theorem Turns.takePage (ht : Turns h cutoffMs endMs listed bound p) (pageSize : ℕ) :
    Turns h cutoffMs endMs (listed ++ h.search cutoffMs bound pageSize) bound
      ((chunks bulkUrlConcurrency (h.search cutoffMs bound pageSize)).foldl
        (Paging.takeSlice cutoffMs endMs) p) := by
  obtain ⟨seen, hw, hseen⟩ := ht.walked
  set slices := chunks bulkUrlConcurrency (h.search cutoffMs bound pageSize)
  have hflat : slices.flatten = h.search cutoffMs bound pageSize := flatten_chunks (by decide) _
  have hvisited : ∀ item ∈ slices.flatten,
      item ∈ h.items ∧ ∃ stop, item.timesIn cutoffMs stop ≠ [] := by
    intro item hitem
    rw [hflat] at hitem
    exact ⟨(mem_of_mem_search hitem).1, bound, (mem_of_mem_search hitem).2⟩
  obtain ⟨fresh, hfresh, hall, hw', hend⟩ :=
    hw.takeSlices hvisited (hflat ▸ search_nodup h cutoffMs bound pageSize)
  rw [hflat] at hfresh hall
  refine ⟨⟨seen ++ fresh, hw', fun item => ?_⟩, hend.trans ht.queryEndTime⟩
  constructor
  · intro hitem
    rcases List.mem_append.mp hitem with hitem | hitem
    · exact List.mem_append_left _ ((hseen item).mp hitem)
    · exact List.mem_append_right _ (hfresh item hitem)
  · intro hitem
    rcases List.mem_append.mp hitem with hitem | hitem
    · exact List.mem_append_left _ ((hseen item).mpr hitem)
    · exact hall item hitem

/-- With a page that is not full the loop ends, -/
theorem Turns.pageStep_last (ht : Turns h cutoffMs endMs listed bound p)
    (hshort : (h.search cutoffMs bound pageSize).length < pageSize) :
    ∃ taken, h.pageStep pageSize cutoffMs endMs p = .last taken ∧
      Turns h cutoffMs endMs (listed ++ h.search cutoffMs bound pageSize) bound taken := by
  rw [pageStep, ht.queryEndTime, if_pos hshort]
  exact ⟨_, rfl, ht.takePage pageSize⟩

/-- and with a full one it goes on with the next bound. -/
theorem Turns.pageStep_more (ht : Turns h cutoffMs endMs listed bound p)
    (hfull : (h.search cutoffMs bound pageSize).length = pageSize)
    (hlast : (h.search cutoffMs bound pageSize).getLast? = some last) :
    ∃ next, h.pageStep pageSize cutoffMs endMs p = .more next ∧
      Turns h cutoffMs endMs (listed ++ h.search cutoffMs bound pageSize)
        (nextBound cutoffMs endMs last bound) next := by
  obtain ⟨⟨seen, hw, hseen⟩, -⟩ := ht.takePage pageSize
  have hmem := List.mem_of_getLast? hlast
  have hlisted := (mem_of_mem_search hmem).1
  have htimes := hw.times last ((hseen last).mpr (List.mem_append_right _ hmem))
  have hnext : (largestBelow (last.times cutoffMs endMs) bound).getD (bound - 1) =
      nextBound cutoffMs endMs last bound := by
    rw [largestBelow_eq (times_sorted _ _ _) (times_perm _ _ _), nextBound]
  rw [pageStep, ht.queryEndTime, if_neg (by omega), hlast]
  dsimp only
  rw [if_neg (h.url_ne_empty last hlisted), htimes, Option.getD_some, hnext, if_pos nextBound_lt]
  exact ⟨_, rfl, ⟨seen, ⟨hw.mem, hw.nodup, hw.times, hw.unseen, hw.stream⟩, hseen⟩, rfl⟩

/-- How much there is before a bound: times of visits by the user, and milliseconds. -/
def rest (h : BrowserHistory) (cutoffMs endMs bound : ℚ) : ℕ :=
  ((h.items.flatMap fun item => item.userTimesIn cutoffMs endMs).toFinset.filter (· < bound)).card +
    ⌈bound - cutoffMs⌉₊

/-- There is less before the next bound. -/
theorem rest_nextBound_lt (hlast : last ∈ h.search cutoffMs bound pageSize) :
    h.rest cutoffMs endMs (nextBound cutoffMs endMs last bound) < h.rest cutoffMs endMs bound := by
  obtain ⟨hlisted, hvisited⟩ := mem_of_mem_search hlast
  have hlt : nextBound cutoffMs endMs last bound < bound := nextBound_lt
  have hsubset : ((h.items.flatMap fun item => item.userTimesIn cutoffMs endMs).toFinset.filter
      (· < nextBound cutoffMs endMs last bound)) ⊆
      (h.items.flatMap fun item => item.userTimesIn cutoffMs endMs).toFinset.filter (· < bound) :=
    Finset.monotone_filter_right _ fun time _ htime => htime.trans hlt
  rcases hmax : ((last.userTimesIn cutoffMs endMs).filter (· < bound)).max? with _ | time
  · -- the bound is one millisecond earlier, and was not before the cutoff
    have hnext : nextBound cutoffMs endMs last bound = bound - 1 := by
      rw [nextBound, hmax, Option.getD_none]
    obtain ⟨time, htime⟩ := List.exists_mem_of_ne_nil _ hvisited
    obtain ⟨-, hcutoff, hbound⟩ := (mem_timesIn last cutoffMs bound).mp htime
    have hpos : 0 < ⌈bound - cutoffMs⌉₊ := Nat.ceil_pos.mpr (by linarith)
    have hceil : ⌈bound - 1 - cutoffMs⌉₊ = ⌈bound - cutoffMs⌉₊ - 1 := by
      rw [sub_right_comm, Nat.ceil_sub_one]
    have hcard := Finset.card_le_card hsubset
    rw [hnext] at hcard ⊢
    rw [rest, rest, hceil]
    omega
  · -- the visit the next bound is at is no longer before it
    have hnext : nextBound cutoffMs endMs last bound = time := by
      rw [nextBound, hmax, Option.getD_some]
    have hmem := List.mem_filter.mp (List.max?_mem hmax)
    have hcard : ((h.items.flatMap fun item => item.userTimesIn cutoffMs endMs).toFinset.filter
        (· < nextBound cutoffMs endMs last bound)).card <
        ((h.items.flatMap fun item => item.userTimesIn cutoffMs endMs).toFinset.filter
          (· < bound)).card := by
      refine Finset.card_lt_card ((Finset.ssubset_iff_of_subset hsubset).mpr ⟨time, ?_, ?_⟩)
      · rw [Finset.mem_filter, List.mem_toFinset, List.mem_flatMap]
        exact ⟨⟨last, hlisted, hmem.1⟩, of_decide_eq_true hmem.2⟩
      · rw [Finset.mem_filter, hnext, not_and]
        exact fun _ => lt_irrefl time
    have hceil : ⌈nextBound cutoffMs endMs last bound - cutoffMs⌉₊ ≤ ⌈bound - cutoffMs⌉₊ :=
      Nat.ceil_le_ceil (sub_le_sub_right hlt.le _)
    exact Nat.add_lt_add_of_lt_of_le hcard hceil

/-- A page that is not short is full, and has a last item. -/
theorem full_of_not_lt (hsize : 0 < pageSize)
    (hlong : ¬(h.search cutoffMs bound pageSize).length < pageSize) :
    (h.search cutoffMs bound pageSize).length = pageSize ∧
      ∃ last, (h.search cutoffMs bound pageSize).getLast? = some last := by
  have hle := length_search_le h cutoffMs bound pageSize
  have hne : h.search cutoffMs bound pageSize ≠ [] := List.length_pos_iff.mp (by omega)
  exact ⟨by omega, _, List.getLast?_eq_some_getLast hne⟩

/-- **The loop ends**, after a page that is not full. -/
theorem exists_pages (hsize : 0 < pageSize) {rounds : ℕ}
    (hrounds : h.rest cutoffMs endMs bound < rounds)
    (hturned : h.Turned pageSize cutoffMs endMs listed bound)
    (ht : Turns h cutoffMs endMs listed bound p) :
    ∃ q listed' bound', h.pages pageSize cutoffMs endMs rounds p = some q ∧
      h.Turned pageSize cutoffMs endMs listed' bound' ∧
      (h.search cutoffMs bound' pageSize).length < pageSize ∧
      Turns h cutoffMs endMs (listed' ++ h.search cutoffMs bound' pageSize) bound' q := by
  induction rounds generalizing listed bound p with
  | zero => exact absurd hrounds (Nat.not_lt_zero _)
  | succ rounds ih =>
    rw [pages]
    by_cases hshort : (h.search cutoffMs bound pageSize).length < pageSize
    · obtain ⟨taken, htaken, ht'⟩ := ht.pageStep_last hshort
      rw [htaken]
      exact ⟨taken, listed, bound, rfl, hturned, hshort, ht'⟩
    · obtain ⟨hfull, last, hlast⟩ := full_of_not_lt hsize hshort
      obtain ⟨next, hnext, ht'⟩ := ht.pageStep_more hfull hlast
      have hless : h.rest cutoffMs endMs (nextBound cutoffMs endMs last bound) <
          h.rest cutoffMs endMs bound := rest_nextBound_lt (List.mem_of_getLast? hlast)
      rw [hnext]
      exact ih (by omega) (hturned.turn hfull hlast) ht'

/-- Wherever the pages get to, the loop gets to. -/
theorem Turned.exists_turns (hturned : h.Turned pageSize cutoffMs endMs listed bound) :
    ∃ p, Turns h cutoffMs endMs listed bound p ∧ ∀ rounds q,
      h.pages pageSize cutoffMs endMs rounds ⟨endMs, .empty, []⟩ = some q →
        ∃ rounds', h.pages pageSize cutoffMs endMs rounds' p = some q := by
  induction hturned with
  | start => exact ⟨_, .start h cutoffMs endMs, fun rounds q hq => ⟨rounds, hq⟩⟩
  | turn _ hfull hlast ih =>
    obtain ⟨p, ht, hruns⟩ := ih
    obtain ⟨next, hnext, ht'⟩ := ht.pageStep_more hfull hlast
    refine ⟨next, ht', fun rounds q hq => ?_⟩
    obtain ⟨rounds', hq'⟩ := hruns rounds q hq
    cases rounds' with
    | zero => cases hq'
    | succ rounds' =>
      rw [pages, hnext] at hq'
      exact ⟨rounds', hq'⟩

/-! ### What is passed over -/

/-- A URL that was not visited before a bound is on no later page. -/
theorem Turns.notMem_of_pages (hsize : 0 < pageSize) {rounds : ℕ} {q : Paging}
    (ht : Turns h cutoffMs endMs listed bound p) (hitem : item ∉ listed)
    (hnone : item.timesIn cutoffMs bound = [])
    (hq : h.pages pageSize cutoffMs endMs rounds p = some q) :
    ∃ listed' bound', Turns h cutoffMs endMs listed' bound' q ∧ item ∉ listed' := by
  induction rounds generalizing listed bound p with
  | zero => cases hq
  | succ rounds ih =>
    have hpage : item ∉ listed ++ h.search cutoffMs bound pageSize := by
      rw [List.mem_append, not_or]
      exact ⟨hitem, fun hmem => (mem_of_mem_search hmem).2 hnone⟩
    rw [pages] at hq
    by_cases hshort : (h.search cutoffMs bound pageSize).length < pageSize
    · obtain ⟨taken, htaken, ht'⟩ := ht.pageStep_last hshort
      rw [htaken] at hq
      cases hq
      exact ⟨_, _, ht', hpage⟩
    · obtain ⟨hfull, last, hlast⟩ := full_of_not_lt hsize hshort
      obtain ⟨next, hnext, ht'⟩ := ht.pageStep_more hfull hlast
      rw [hnext] at hq
      refine ih ht' hpage ?_ hq
      refine List.eq_nil_iff_forall_not_mem.mpr fun time htime => ?_
      obtain ⟨hvisit, hcutoff, hbefore⟩ := (mem_timesIn _ _ _).mp htime
      have hin : time ∈ item.timesIn cutoffMs bound :=
        (mem_timesIn _ _ _).mpr ⟨hvisit, hcutoff, hbefore.trans nextBound_lt⟩
      rw [hnone] at hin
      exact List.not_mem_nil hin

/-- If every URL the user visited is listed, the stream is what the user visited. -/
theorem Turns.stream_perm (ht : Turns h cutoffMs endMs listed bound p)
    (hall : ∀ item ∈ h.items, item.userTimesIn cutoffMs endMs ≠ [] → item ∈ listed) :
    (itemsOf p.stream).Perm (h.userVisits cutoffMs endMs) := by
  obtain ⟨seen, hw, hseen⟩ := ht.walked
  set visits : HistoryItem → List (HistoryPage × ℚ) := fun item =>
    (item.userTimesIn cutoffMs endMs).map fun time => (item.page, time) with hvisits
  have hfilter : ∀ items : List HistoryItem,
      items.flatMap visits = (items.filter fun item => visits item ≠ []).flatMap visits := by
    intro items
    induction items with
    | nil => rfl
    | cons item items ih =>
      rw [List.flatMap_cons, List.filter_cons, ih]
      by_cases hnil : visits item = []
      · simp [hnil]
      · simp [hnil]
  have hperm : (seen.filter fun item => visits item ≠ []).Perm
      (h.items.filter fun item => visits item ≠ []) := by
    refine (List.perm_ext_iff_of_nodup (hw.nodup.filter _) ((items_nodup h).filter _)).mpr ?_
    intro item
    rw [List.mem_filter, List.mem_filter]
    refine and_congr_left fun hne => ⟨hw.mem item, fun hitem => (hseen item).mpr ?_⟩
    refine hall item hitem fun hnil => ?_
    simp [hvisits, hnil] at hne
  rw [hw.itemsOf_stream, userVisits, hfilter h.items]
  refine List.Perm.trans ?_ (hperm.flatMap_right _)
  rw [← hfilter]
  exact List.Perm.flatMap_left _ fun item _ => (times_perm item cutoffMs endMs).map _

/-- A URL that is missing from the list is missing from the stream. -/
theorem Turns.not_perm (ht : Turns h cutoffMs endMs listed bound p) (hitem : item ∈ h.items)
    (hvisited : item.userTimesIn cutoffMs endMs ≠ []) (hnot : item ∉ listed) :
    ¬(itemsOf p.stream).Perm (h.userVisits cutoffMs endMs) := by
  intro hperm
  obtain ⟨seen, hw, hseen⟩ := ht.walked
  obtain ⟨time, htime⟩ := List.exists_mem_of_ne_nil _ hvisited
  have hmem : (item.page, time) ∈ h.userVisits cutoffMs endMs :=
    List.mem_flatMap.mpr ⟨item, hitem, List.mem_map_of_mem htime⟩
  rw [← hperm.mem_iff, hw.itemsOf_stream] at hmem
  obtain ⟨other, hother, hpage⟩ := List.mem_flatMap.mp hmem
  obtain ⟨_, -, heq⟩ := List.mem_map.mp hpage
  have hsame : other = item := eq_of_url_eq (hw.mem other hother) hitem
    (congrArg (fun visit : HistoryPage × ℚ => visit.1.url) heq)
  exact hnot ((hseen item).mp (hsame ▸ hother))

/-- The segments of a stream, whatever it is. -/
theorem segments_spec (limits : BulkLimits) (skip : ℕ) (stream : List CollectedGroup) :
    (Client.enumerateVisits limits skip stream).flatMap itemsOf = (itemsOf stream).drop skip ∧
      (∀ segment ∈ (Client.enumerateVisits limits skip stream).dropLast,
        count segment = limits.segmentVisits) ∧
      ∀ segment ∈ Client.enumerateVisits limits skip stream,
        0 < count segment ∧ count segment ≤ limits.segmentVisits := by
  rw [enumerateVisits_eq]
  refine ⟨?_, fun segment => count_of_mem_dropLast_pieces, fun segment hsegment =>
    ⟨count_pos_of_mem_pieces hsegment, count_le_of_mem_pieces hsegment⟩⟩
  rw [itemsOf_pieces limits.segmentVisits_pos, itemsOf_dropItems, itemsOf_visited]

/-- An enumeration is complete if its stream is. -/
theorem complete_iff_stream {limits : BulkLimits} {skip : ℕ} :
    h.Complete pageSize cutoffMs endMs limits skip ↔
      ∃ rounds q, h.pages pageSize cutoffMs endMs rounds ⟨endMs, .empty, []⟩ = some q ∧
        (itemsOf q.stream).Perm (h.userVisits cutoffMs endMs) := by
  constructor
  · rintro ⟨rounds, stream, segments, hstream, -, hperm, -⟩
    obtain ⟨q, hq, rfl⟩ := Option.map_eq_some_iff.mp hstream
    exact ⟨rounds, q, hq, hperm⟩
  · rintro ⟨rounds, q, hq, hperm⟩
    obtain ⟨hitems, hfull, hcounts⟩ := segments_spec limits skip q.stream
    have hstream : h.visitStream pageSize cutoffMs endMs rounds = some q.stream := by
      rw [visitStream, hq, Option.map_some]
    refine ⟨rounds, q.stream, _, hstream, ?_, hperm, hitems, hfull, hcounts⟩
    rw [enumerateVisits, hstream, Option.map_some]

/-- Without room on a page the loop throws. -/
theorem pages_of_pageSize_eq_zero (rounds : ℕ) (p : Paging) :
    h.pages 0 cutoffMs endMs rounds p = none := by
  cases rounds with
  | zero => rfl
  | succ rounds => rw [pages, pageStep, search, List.take_zero]; rfl

/-- What a complete enumeration shows of the pages. -/
theorem passesOverNone_of_complete {limits : BulkLimits} {skip : ℕ}
    (hcomplete : h.Complete pageSize cutoffMs endMs limits skip) :
    0 < pageSize ∧ h.PassesOverNone pageSize cutoffMs endMs := by
  obtain ⟨rounds, q, hq, hperm⟩ := complete_iff_stream.mp hcomplete
  have hsize : 0 < pageSize := by
    rcases Nat.eq_zero_or_pos pageSize with rfl | hsize
    · rw [pages_of_pageSize_eq_zero] at hq
      cases hq
    · exact hsize
  refine ⟨hsize, fun listed bound hturned item hitem hvisited hnot hnone => ?_⟩
  obtain ⟨p, ht, hruns⟩ := hturned.exists_turns
  obtain ⟨rounds', hq'⟩ := hruns rounds q hq
  obtain ⟨listed', bound', ht', hnot'⟩ := ht.notMem_of_pages hsize hnot hnone hq'
  exact ht'.not_perm hitem hvisited hnot' hperm

/-- **When the enumeration of the history is complete**: there is room on a page, and no page
passes over a URL. -/
theorem complete_iff (h : BrowserHistory) (pageSize : ℕ) (cutoffMs endMs : ℚ) (limits : BulkLimits)
    (skip : ℕ) : h.Complete pageSize cutoffMs endMs limits skip ↔
      0 < pageSize ∧ h.PassesOverNone pageSize cutoffMs endMs := by
  refine ⟨passesOverNone_of_complete, ?_⟩
  rintro ⟨hsize, hnone⟩
  obtain ⟨q, listed, bound, hq, hturned, hshort, ht⟩ :=
    exists_pages hsize (Nat.lt_succ_self _) .start (.start h cutoffMs endMs)
  refine complete_iff_stream.mpr ⟨_, q, hq, ht.stream_perm fun item hitem hvisited => ?_⟩
  by_contra hmissing
  rw [List.mem_append, not_or] at hmissing
  exact hmissing.2 (mem_search_of_length_lt hshort hitem
    (hnone listed bound hturned item hitem hvisited hmissing.1))

/-- A URL the user visited once. -/
def visitedOnce (url : String) (time : ℚ) : HistoryItem where
  page := ⟨url, none⟩
  lastVisitTime := some time
  visits := [⟨some time, some "link"⟩]
  le_lastVisitTime := by simp

/-- Two URLs visited at the same time. -/
def twoAtOnce : BrowserHistory where
  items := [visitedOnce "a" 5, visitedOnce "b" 5]
  nodup := by decide
  url_ne_empty := by decide

theorem search_twoAtOnce : twoAtOnce.search 0 10 1 = [visitedOnce "a" 5] := by
  decide

/-- With room for one on a page, the second is passed over. -/
theorem not_complete : ¬twoAtOnce.Complete 1 0 10 bulkLimits 0 := by
  intro hcomplete
  have hnext : nextBound 0 10 (visitedOnce "a" 5) 10 = 5 := by decide
  have hturned : twoAtOnce.Turned 1 0 10 ([] ++ twoAtOnce.search 0 10 1)
      (nextBound 0 10 (visitedOnce "a" 5) 10) :=
    .turn .start (by rw [search_twoAtOnce]; rfl) (by rw [search_twoAtOnce]; rfl)
  rw [hnext, search_twoAtOnce] at hturned
  exact (passesOverNone_of_complete hcomplete).2 _ _ hturned (visitedOnce "b" 5) (by decide)
    (by decide) (by decide) (by decide)

/-! ### Visits at different times -/

end BrowserHistory

end Client

end HelixSync
