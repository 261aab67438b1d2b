import ReviewDesk.Arrange
import ReviewDesk.Ascending
import ReviewDesk.Config
import ReviewDesk.Deactivation
import ReviewDesk.Desk
import ReviewDesk.Draw.Bounded
import ReviewDesk.Draw.Pick
import ReviewDesk.Draw.Shuffle
import ReviewDesk.Draw.Words
import ReviewDesk.Failure
import ReviewDesk.Http.Chunks
import ReviewDesk.Http.Coding
import ReviewDesk.Http.Endpoint
import ReviewDesk.Http.Framing
import ReviewDesk.Http.Head
import ReviewDesk.Http.MediaType
import ReviewDesk.Http.Request
import ReviewDesk.Http.Response
import ReviewDesk.Http.Service
import ReviewDesk.Http.Target
import ReviewDesk.Http.Token
import ReviewDesk.Http.Wire
import ReviewDesk.Json.Draft
import ReviewDesk.Json.Form
import ReviewDesk.Json.Numeral
import ReviewDesk.Json.Token
import ReviewDesk.Json.Value
import ReviewDesk.Keyed
import ReviewDesk.Names
import ReviewDesk.Operation
import ReviewDesk.Plan
import ReviewDesk.Proofs.AllOrNothing
import ReviewDesk.Proofs.Assignments
import ReviewDesk.Proofs.Consistency
import ReviewDesk.Proofs.DeactivationOrder
import ReviewDesk.Proofs.Declarations
import ReviewDesk.Proofs.Deliveries
import ReviewDesk.Proofs.DeskSteps
import ReviewDesk.Proofs.Effect
import ReviewDesk.Proofs.Encoding
import ReviewDesk.Proofs.Enrolment
import ReviewDesk.Proofs.FairIndices
import ReviewDesk.Proofs.FairPicks
import ReviewDesk.Proofs.FormFields
import ReviewDesk.Proofs.History
import ReviewDesk.Proofs.Integrity
import ReviewDesk.Proofs.JsonLexemes
import ReviewDesk.Proofs.JsonScanning
import ReviewDesk.Proofs.JsonText
import ReviewDesk.Proofs.JsonValues
import ReviewDesk.Proofs.Lengths
import ReviewDesk.Proofs.Log
import ReviewDesk.Proofs.LostRaces
import ReviewDesk.Proofs.MalformedBodies
import ReviewDesk.Proofs.Measures
import ReviewDesk.Proofs.Migrations
import ReviewDesk.Proofs.NumberText
import ReviewDesk.Proofs.Outcomes
import ReviewDesk.Proofs.Permanence
import ReviewDesk.Proofs.Picks
import ReviewDesk.Proofs.PullBounds
import ReviewDesk.Proofs.PullRows
import ReviewDesk.Proofs.Queries
import ReviewDesk.Proofs.QueryText
import ReviewDesk.Proofs.Refusals
import ReviewDesk.Proofs.RepairCounts
import ReviewDesk.Proofs.Replacement
import ReviewDesk.Proofs.Requests
import ReviewDesk.Proofs.ReviewLists
import ReviewDesk.Proofs.ReviewRows
import ReviewDesk.Proofs.RowOrder
import ReviewDesk.Proofs.Settings
import ReviewDesk.Proofs.StoreSteps
import ReviewDesk.Proofs.StoredTimes
import ReviewDesk.Proofs.Tallies
import ReviewDesk.Proofs.TeamDeactivation
import ReviewDesk.Proofs.TeamTransfer
import ReviewDesk.Pulls
import ReviewDesk.Schema.Layout
import ReviewDesk.Schema.Migration
import ReviewDesk.Schema.Table
import ReviewDesk.Session
import ReviewDesk.Startup
import ReviewDesk.Stats
import ReviewDesk.Status
import ReviewDesk.Storage.Causes
import ReviewDesk.Storage.Locator
import ReviewDesk.Storage.Machine
import ReviewDesk.Storage.Opening
import ReviewDesk.Storage.Path
import ReviewDesk.Storage.Server
import ReviewDesk.Storage.Url
import ReviewDesk.Store.Basic
import ReviewDesk.Store.Joins
import ReviewDesk.Store.Read
import ReviewDesk.Store.View
import ReviewDesk.Store.Write
import ReviewDesk.Teams
import ReviewDesk.Text.Address
import ReviewDesk.Text.Ascii
import ReviewDesk.Text.Blank
import ReviewDesk.Text.Decimal
import ReviewDesk.Text.Hexadecimal
import ReviewDesk.Text.Number
import ReviewDesk.Text.Parameters
import ReviewDesk.Text.Percent
import ReviewDesk.Text.Pieces
import ReviewDesk.Text.Printable
import ReviewDesk.Text.Quoted
import ReviewDesk.Text.Utf8
import ReviewDesk.Time.Calendar
import ReviewDesk.Time.Instant
