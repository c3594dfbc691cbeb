import Typeahead.Rehearsal
import Typeahead.Service
import Typeahead.Json.Printer
import Typeahead.Settings.Environment
import Typeahead.Proofs.Menu.OpenMenu
import Typeahead.Proofs.Menu.Superseded
import Typeahead.Proofs.Fetch.Ceiling
import Typeahead.Proofs.Fetch.SingleFlight
import Typeahead.Proofs.Fetch.Cleared
import Typeahead.Proofs.Fetch.Cancelled
import Typeahead.Proofs.Cache.Eviction
import Typeahead.Proofs.Service.Running
import Typeahead.Proofs.Catalog.Keys
import Typeahead.Proofs.Catalog.Addresses
import Typeahead.Proofs.Metrics.Cursors
import Typeahead.Proofs.Logs.Cursors
import Typeahead.Proofs.Edit.FilterKey
import Typeahead.Proofs.Edit.FilterValue
import Typeahead.Proofs.Edit.FacetValue
import Typeahead.Proofs.Edit.GroupingTag
import Typeahead.Proofs.Metrics.Keys
import Typeahead.Proofs.Suggestion.Retyped
import Typeahead.Proofs.Logs.Inserted
import Typeahead.Proofs.Metrics.Inserted
import Typeahead.Proofs.Edit.FacetName
import Typeahead.Proofs.Edit.MetricLine
import Typeahead.Proofs.Edit.Operator
import Typeahead.Proofs.Suggestion.Ranking
import Typeahead.Proofs.Service.Completed
import Typeahead.Proofs.Menu.Coherent
import Typeahead.Proofs.Menu.Pauses
import Typeahead.Proofs.Rehearsal.Played
import Typeahead.Proofs.Rehearsal.StandIn
import Typeahead.Proofs.Metrics.Entries
import Typeahead.Proofs.Logs.Positions
import Typeahead.Proofs.Reading.OwnLine
import Typeahead.Proofs.Reading.Shaped
import Typeahead.Proofs.Suggestion.Planned
import Typeahead.Proofs.Edit.Delegated
import Typeahead.Proofs.Suggestion.Groups
import Typeahead.Proofs.Token.Remasked
import Typeahead.Proofs.Reading.Brackets
