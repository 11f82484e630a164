import MyIVR.Foundations.Climbing
import MyIVR.Foundations.FlatStore
import MyIVR.Foundations.KeyTree
import MyIVR.Foundations.Loops
import MyIVR.Foundations.LostUpdate
import MyIVR.Foundations.Mailbox
import MyIVR.Foundations.Mealy
import MyIVR.Foundations.Placement
import MyIVR.Foundations.Relay
import MyIVR.Foundations.SwiftRuntime
import MyIVR.Foundations.TreeWrites
import MyIVR.Game.Acceptance
import MyIVR.Game.Attrition
import MyIVR.Game.BishopRule
import MyIVR.Game.BranchSpecs
import MyIVR.Game.Branches
import MyIVR.Game.Conservation
import MyIVR.Game.FullBoard
import MyIVR.Game.GameData
import MyIVR.Game.GameEnd
import MyIVR.Game.InitialBoard
import MyIVR.Game.Journeys
import MyIVR.Game.Mirror
import MyIVR.Game.MoveTest
import MyIVR.Game.Objects
import MyIVR.Game.PawnProgress
import MyIVR.Game.PawnRule
import MyIVR.Game.Piece
import MyIVR.Game.QueenRule
import MyIVR.Game.Refinement
import MyIVR.Game.Repetition
import MyIVR.Game.RookRule
import MyIVR.Game.Selection
import MyIVR.Game.Sightline
import MyIVR.Game.Snapshot
import MyIVR.Game.Statements
import MyIVR.Game.TrapFreedom
import MyIVR.Game.TurnInvariant
import MyIVR.Game.TurnLoop
import MyIVR.Game.TurnOrder
import MyIVR.Game.TurnSteps
import MyIVR.Match.Agreement
import MyIVR.Match.Colours
import MyIVR.Match.Delivery
import MyIVR.Match.Entrance
import MyIVR.Match.FourPlayersGame
import MyIVR.Match.NewPairs
import MyIVR.Match.Painted
import MyIVR.Match.Standstill
import MyIVR.Screen.Arrangement
import MyIVR.Screen.AuthController
import MyIVR.Screen.Controller
import MyIVR.Screen.Display
import MyIVR.Screen.Exchange
import MyIVR.Screen.TapDelivery
import MyIVR.Screen.View
import MyIVR.Store.BoardInvariant
import MyIVR.Store.CapturedFigures
import MyIVR.Store.DataService
import MyIVR.Store.Decimal
import MyIVR.Store.GameRecord
import MyIVR.Store.GameSearch
import MyIVR.Store.GamesList
import MyIVR.Store.Independence
import MyIVR.Store.Joining
import MyIVR.Store.MoveMessage
import MyIVR.Store.PositionField
import MyIVR.Store.Preferences
import MyIVR.Store.RequestedLoad
import MyIVR.Store.Requests
import MyIVR.Store.RoundTrip
import MyIVR.Store.SaveIndex
import MyIVR.Store.Separation
import MyIVR.Store.StatusRead
import MyIVR.Store.Tables
import MyIVR.Store.TwoPlayerSaves
import MyIVR.Store.UnreadSaves
